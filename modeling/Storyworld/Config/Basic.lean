import Storyworld.Config.Setting
import Storyworld.State

/-!
The configuration of an engine. Settings that are left out keep their defaults, and unknown ones do
not count.
-/

namespace Storyworld

structure Config where
  notifyErrors : Bool := true
  seed : Option Nat := none
  -- For a state that has no schema.
  flags : Flags := {}
deriving DecidableEq

namespace Setting

def asFlag? : Setting → Option Bool
  | flag b => some b
  | _ => none

-- An optional number of 64 bits; if `bare`, it may stand without `Some`.
def asSeed? (bare : Bool) : Setting → Option (Option Nat)
  | option none => some none
  | option (some (natural n)) => if n < wordBound then some (some n) else none
  | natural n => if bare ∧ n < wordBound then some (some n) else none
  | _ => none

-- The fields of a group that has the given name or none.
def fieldsOf? (name : String) : Setting → Option (List (String × Setting))
  | group found fields => if found.isEmpty ∨ found = name then some fields else none
  | _ => none

-- A field must not come twice.
def field? {α : Type} (fields : List (String × Setting)) (name : String) (read? : Setting → Option α)
    (default : α) : Option α :=
  match fields.filter (·.1 == name) with
  | [] => some default
  | [(_, v)] => read? v
  | _ => none

end Setting

open Setting

def Flags.ofSetting? (setting : Setting) : Option Flags := do
  let fields ← setting.fieldsOf? "RootFlags"
  let flag (name : String) (default : Bool) : Option Bool := field? fields name asFlag? default
  return {
    strictTemplate := ← flag "strictTemplate" false
    concatTemplateArray := ← flag "concatTemplateArray" true
    strictSet := ← flag "strictSet" false }

namespace Config

def ofSetting? (extensions : List Extension) (setting : Setting) : Option Config := do
  let fields ← setting.fieldsOf? "EngineConfig"
  return {
    notifyErrors := ← field? fields "notify_errors" asFlag? true
    seed := ← field? fields "seed" (asSeed? (extensions.contains .implicitSome)) none
    flags := ← field? fields "default_flags" Flags.ofSetting? {} }

def parse? (text : String) : Option Config :=
  (Setting.parse? text).bind fun (extensions, setting) => ofSetting? extensions setting

end Config

end Storyworld
