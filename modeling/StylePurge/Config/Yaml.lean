import StylePurge.Config.Document
import StylePurge.Yaml.Decoder

/-!
Configurations written in YAML. Every field has a default, and an empty stream
is the default configuration.
-/

namespace StylePurge.Config

open Yaml

def textsOfYaml : Decoder (List Text) := Decoder.list Decoder.text

def keepBannerOfYaml : Decoder Bool := fun root node => do
  match ← Decoder.fields bannerFieldNames root node with
  | [keep] => Decoder.withDefault true Decoder.bool root keep
  | _ => none

def limitsOfYaml : Decoder Limits := fun root node => do
  match ← Decoder.fields limitFieldNames root node with
  | [size, links] =>
      some
        { maxFileSize :=
            ← Decoder.withDefault Limits.default.maxFileSize Decoder.word root size
          allowLinks :=
            ← Decoder.withDefault Limits.default.allowLinks Decoder.bool root links }
  | _ => none

def ofYaml : Decoder Config := fun root node => do
  match ← Decoder.fields fieldNames root node with
  | [safelist, content, exclude, banner, limits] =>
      some
        { safelist := ← Decoder.withDefault [] textsOfYaml root safelist
          content := ← Decoder.withDefault [] textsOfYaml root content
          exclude := ← Decoder.withDefault [] textsOfYaml root exclude
          keepBanner := ← Decoder.withDefault true keepBannerOfYaml root banner
          limits := ← Decoder.withDefault Limits.default limitsOfYaml root limits }
  | _ => none

def readYaml? (text : Text) : Option Config := do
  match ← Yaml.read? text with
  | .empty => some default
  | .root node => ofYaml node node

end StylePurge.Config
