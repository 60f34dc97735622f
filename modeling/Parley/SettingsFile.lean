import Parley.Settings
import Parley.Toml.Read

/-!
# Settings from a file

A settings file gives some of the settings; the others are as without any choice. Whatever else
it says is passed over, but a setting of the wrong kind spoils the file, and so does a line that
cannot be read.
-/

namespace Parley.Settings

/-- A number under a key, or the number without any choice. -/
def number? (entries : Toml.Entries) (key : String) (standard : Nat) : Option Nat :=
  match entries.get? key with
  | none => some standard
  | some (.integer i) => if 0 ≤ i ∧ i < Int.pow 2 64 then some i.toNat else none
  | some _ => none

/-- A truth value under a key, or the one without any choice. -/
def truth? (entries : Toml.Entries) (key : String) (standard : Bool) : Option Bool :=
  match entries.get? key with
  | none => some standard
  | some (.truth b) => some b
  | some _ => none

/-- The settings that a file gives; none if it is spoilt. -/
def ofText? (text : String) : Option Settings := do
  let entries ← Toml.read? text
  return {
    cacheSize := ← number? entries "inline_cache_size" standard.cacheSize
    maxDepth := ← number? entries "max_call_depth" standard.maxDepth
    loopReport := ← number? entries "back_edge_report_threshold" standard.loopReport
    eager := ← truth? entries "eager_specialization" standard.eager
    inlining := ← truth? entries "inline_blocks" standard.inlining }

/-- Why a settings file is spoilt. -/
def spoilt : String := "invalid VM configuration"

end Parley.Settings
