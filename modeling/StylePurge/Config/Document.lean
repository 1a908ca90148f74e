import StylePurge.Config
import StylePurge.Json.Decoder
import StylePurge.Json.Reader

/-!
Configurations written in JSON. Every field has a default.
-/

namespace StylePurge

namespace Config

/-- The fields of a configuration, of its banner part and of its security part,
in the order in which an array of them is read. -/
def fieldNames : List String := ["safelist", "content", "exclude", "banner", "security"]

def bannerFieldNames : List String := ["keep"]

def limitFieldNames : List String := ["max_file_size", "allow_symlinks"]

def textsOfJson? : Json → Option (List Text) := Json.list? Json.text?

def keepBannerOfJson? (document : Json) : Option Bool := do
  match ← Json.fields? bannerFieldNames .mayBeShort document with
  | [keep] => Json.withDefault true Json.bool? keep
  | _ => none

end Config

def Limits.ofJson? (document : Json) : Option Limits := do
  match ← Json.fields? Config.limitFieldNames .mayBeShort document with
  | [size, links] =>
      some
        { maxFileSize := ← Json.withDefault Limits.default.maxFileSize Json.word? size
          allowLinks := ← Json.withDefault Limits.default.allowLinks Json.bool? links }
  | _ => none

namespace Config

def ofJson? (document : Json) : Option Config := do
  match ← Json.fields? fieldNames .mayBeShort document with
  | [safelist, content, exclude, banner, limits] =>
      some
        { safelist := ← Json.withDefault [] textsOfJson? safelist
          content := ← Json.withDefault [] textsOfJson? content
          exclude := ← Json.withDefault [] textsOfJson? exclude
          keepBanner := ← Json.withDefault true keepBannerOfJson? banner
          limits := ← Json.withDefault Limits.default Limits.ofJson? limits }
  | _ => none

def readJson? (text : Text) : Option Config := (Json.read? text).bind ofJson?

end Config

end StylePurge
