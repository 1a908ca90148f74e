import StylePurge.Yaml.Token

/-!
The structure of a YAML document as a row of events, read from its words with a
stack of what is still open. A stream has at most one document.
-/

namespace StylePurge.Yaml

inductive Event where
  | scalar (anchor tag : Option Text) (text : Text) (style : Style)
  | reference (name : Text)
  | sequenceStart (anchor : Option Text)
  | sequenceEnd
  | mappingStart (anchor : Option Text)
  | mappingEnd
  deriving DecidableEq, Repr

/-- What is read next. An entry or key is the first of its collection or comes
after another one. -/
inductive Expected where
  | firstDocument
  | nextDocument
  | documentContent
  | documentEnd
  | blockNode
  | blockEntry
  | indentlessEntry
  | blockKey
  | blockValue
  | flowEntry (isFirst : Bool)
  | pairKey
  | pairValue
  | pairEnd
  | flowKey (isFirst : Bool)
  | flowValue
  | flowNoValue
  deriving DecidableEq, Repr

/-- `events` are kept in reverse. -/
structure Reader where
  tokens : List Token
  expected : List Expected
  handles : List (Text × Text)
  events : List Event
  deriving Repr

namespace Reader

def emptyScalar (anchor tag : Option Text) : Event := .scalar anchor tag [] .plain

def emit (reader : Reader) (event : Event) : Reader :=
  { reader with events := event :: reader.events }

def skip (reader : Reader) : Reader := { reader with tokens := reader.tokens.drop 1 }

def expect (reader : Reader) (next : Expected) : Reader :=
  { reader with expected := next :: reader.expected }

def defaultHandles : List (Text × Text) :=
  [(['!'], ['!']), (['!', '!'], "tag:yaml.org,2002:".toList)]

def resolveTag? (handles : List (Text × Text)) (handle suffix : Text) : Option Text :=
  if handle.isEmpty then some suffix
  else
    (handles.find? fun entry => entry.1 == handle).map fun entry => entry.2 ++ suffix

def properties? (reader : Reader) : Option (Option Text × Option Text × Reader) :=
  match reader.tokens with
  | .anchor name :: .tag handle suffix :: rest =>
      (resolveTag? reader.handles handle suffix).map fun tag =>
        (some name, some tag, { reader with tokens := rest })
  | .tag handle suffix :: .anchor name :: rest =>
      (resolveTag? reader.handles handle suffix).map fun tag =>
        (some name, some tag, { reader with tokens := rest })
  | .anchor name :: rest => some (some name, none, { reader with tokens := rest })
  | .tag handle suffix :: rest =>
      (resolveTag? reader.handles handle suffix).map fun tag =>
        (none, some tag, { reader with tokens := rest })
  | _ => some (none, none, reader)

/-- Reads the start of a node. Block collections may start only in a block, and
a sequence without indentation only where a key or value is expected. -/
def node (inBlock indentless : Bool) (reader : Reader) : Option Reader := do
  match reader.tokens with
  | .reference name :: _ => some (reader.skip.emit (.reference name))
  | _ =>
      let (anchor, tag, reader) ← reader.properties?
      match reader.tokens with
      | .scalar text style :: _ => some (reader.skip.emit (.scalar anchor tag text style))
      | .flowSequenceStart :: _ =>
          some ((reader.skip.emit (.sequenceStart anchor)).expect (.flowEntry true))
      | .flowMappingStart :: _ =>
          some ((reader.skip.emit (.mappingStart anchor)).expect (.flowKey true))
      | token :: _ =>
          if indentless && token = .blockEntry then
            some ((reader.emit (.sequenceStart anchor)).expect .indentlessEntry)
          else if inBlock && token = .blockSequenceStart then
            some ((reader.skip.emit (.sequenceStart anchor)).expect .blockEntry)
          else if inBlock && token = .blockMappingStart then
            some ((reader.skip.emit (.mappingStart anchor)).expect .blockKey)
          else if anchor.isSome || tag.isSome then some (reader.emit (emptyScalar anchor tag))
          else none
      | [] => if anchor.isSome || tag.isSome then some (reader.emit (emptyScalar anchor tag)) else none

/-- A node, or an empty scalar if one of the given words stands there. -/
def nodeUnless (stops : List Token) (inBlock indentless : Bool) (next : Expected)
    (reader : Reader) : Option Reader :=
  let awaiting := reader.expect next
  match reader.tokens with
  | [] => awaiting.node inBlock indentless
  | token :: _ =>
      if stops.contains token then some (awaiting.emit (emptyScalar none none))
      else awaiting.node inBlock indentless

/-- Directives in front of a document: one version, and handles of tags. -/
def directives? : Bool → List (Text × Text) → List Token → Option (List (Text × Text) × List Token)
  | versionSeen, handles, .version major minor :: rest =>
      if versionSeen || major != 1 || (minor != 1 && minor != 2) then none
      else directives? true handles rest
  | versionSeen, handles, .tagDirective handle tagPrefix :: rest =>
      if handles.any fun entry => entry.1 == handle then none
      else directives? versionSeen (handles ++ [(handle, tagPrefix)]) rest
  | _, handles, rest => some (handles, rest)

def explicitDocument (reader : Reader) : Option Reader := do
  let (handles, rest) ← directives? false [] reader.tokens
  match rest with
  | .documentStart :: rest =>
      some
        { reader with
          tokens := rest
          handles := handles ++ defaultHandles
          expected := [.documentContent, .documentEnd] }
  | _ => none

def isExplicit : Token → Bool
  | .version _ _ | .tagDirective _ _ | .documentStart => true
  | _ => false

/-- One step; the topmost expectation has been taken off. -/
def step (reader : Reader) : Expected → Option Reader
  | .firstDocument =>
      match reader.tokens with
      | [] => some reader
      | token :: _ =>
          if isExplicit token then reader.explicitDocument
          else
            some
              { reader with
                handles := defaultHandles
                expected := [.blockNode, .documentEnd] }
  | .nextDocument =>
      if (reader.tokens.dropWhile (· == .documentEnd)).isEmpty then some { reader with tokens := [] }
      else none
  | .documentContent =>
      match reader.tokens with
      | [] => some (reader.emit (emptyScalar none none))
      | token :: _ =>
          if isExplicit token || token = .documentEnd then
            some (reader.emit (emptyScalar none none))
          else reader.node true false
  | .documentEnd =>
      let rest := match reader.tokens with
        | .documentEnd :: rest => rest
        | tokens => tokens
      some { reader with tokens := rest, expected := [.nextDocument] }
  | .blockNode => reader.node true false
  | .blockEntry =>
      match reader.tokens with
      | .blockEntry :: _ =>
          reader.skip.nodeUnless [.blockEntry, .blockEnd] true false .blockEntry
      | .blockEnd :: _ => some (reader.skip.emit .sequenceEnd)
      | _ => none
  | .indentlessEntry =>
      match reader.tokens with
      | .blockEntry :: _ =>
          reader.skip.nodeUnless [.blockEntry, .key, .value, .blockEnd] true false .indentlessEntry
      | _ => some (reader.emit .sequenceEnd)
  | .blockKey =>
      match reader.tokens with
      | .key :: _ => reader.skip.nodeUnless [.key, .value, .blockEnd] true true .blockValue
      | .blockEnd :: _ => some (reader.skip.emit .mappingEnd)
      | _ => none
  | .blockValue =>
      match reader.tokens with
      | .value :: _ => reader.skip.nodeUnless [.key, .value, .blockEnd] true true .blockKey
      | _ => some ((reader.emit (emptyScalar none none)).expect .blockKey)
  | .flowEntry isFirst =>
      let entry (reader : Reader) : Option Reader :=
        match reader.tokens with
        | .flowSequenceEnd :: _ => some (reader.skip.emit .sequenceEnd)
        | .key :: _ =>
            some (((reader.skip.emit (.mappingStart none)).expect (.flowEntry false)).expect .pairKey)
        | _ => (reader.expect (.flowEntry false)).node false false
      match isFirst, reader.tokens with
      | true, _ => entry reader
      | false, .flowSequenceEnd :: _ => entry reader
      | false, .flowEntry :: _ => entry reader.skip
      | false, _ => none
  | .pairKey =>
      match reader.tokens with
      | .value :: _ | .flowEntry :: _ | .flowSequenceEnd :: _ =>
          some ((reader.skip.emit (emptyScalar none none)).expect .pairValue)
      | _ => (reader.expect .pairValue).node false false
  | .pairValue =>
      match reader.tokens with
      | .value :: _ => reader.skip.nodeUnless [.flowEntry, .flowSequenceEnd] false false .pairEnd
      | _ => some ((reader.emit (emptyScalar none none)).expect .pairEnd)
  | .pairEnd => some (reader.emit .mappingEnd)
  | .flowKey isFirst =>
      let entry (reader : Reader) : Option Reader :=
        match reader.tokens with
        | .flowMappingEnd :: _ => some (reader.skip.emit .mappingEnd)
        | .key :: _ =>
            reader.skip.nodeUnless [.value, .flowEntry, .flowMappingEnd] false false .flowValue
        | _ => (reader.expect .flowNoValue).node false false
      match isFirst, reader.tokens with
      | true, _ => entry reader
      | false, .flowMappingEnd :: _ => entry reader
      | false, .flowEntry :: _ => entry reader.skip
      | false, _ => none
  | .flowValue =>
      match reader.tokens with
      | .value :: _ =>
          reader.skip.nodeUnless [.flowEntry, .flowMappingEnd] false false (.flowKey false)
      | _ => some ((reader.emit (emptyScalar none none)).expect (.flowKey false))
  | .flowNoValue => some ((reader.emit (emptyScalar none none)).expect (.flowKey false))

def run : Nat → Reader → Option Reader
  | 0, _ => none
  | fuel + 1, reader =>
      match reader.expected with
      | [] => some reader
      | next :: outer =>
          (step { reader with expected := outer } next).bind (run fuel)

def start (tokens : List Token) : Reader := ⟨tokens, [.firstDocument], [], []⟩

end Reader

/-- The events of the only document; none at all for an empty stream. Every word
stands for a few steps at most. -/
def events? (tokens : List Token) : Option (List Event) :=
  (Reader.run (8 * tokens.length + 16) (.start tokens)).map fun reader => reader.events.reverse

end StylePurge.Yaml
