-- What `trim` makes of a text, and the texts that it leaves as they are.
import Mathlib.Data.List.DropRight
import Aether.Util.Text

namespace util.string

theorem trim_part (src : Text) : trim src <:+: src :=
  (List.rdropWhile_prefix whitespace (src.dropWhile whitespace)).isInfix.trans
    (List.dropWhile_suffix whitespace).isInfix

theorem trim_blank (src : Text) : trim (32 :: src) = trim src := rfl

theorem dropWhile_trim (src : Text) : (trim src).dropWhile whitespace = trim src := by
  have htrim : trim src = (src.dropWhile whitespace).rdropWhile whitespace := rfl
  apply List.dropWhile_eq_self_iff.mpr
  intro hlen
  have hstart := List.rdropWhile_prefix whitespace (src.dropWhile whitespace)
  rw [← htrim] at hstart
  rw [hstart.getElem hlen]
  exact List.dropWhile_get_zero_not whitespace src _

theorem trim_trim (src : Text) : trim (trim src) = trim src := by
  have htrim (s : Text) : trim s = (s.dropWhile whitespace).rdropWhile whitespace := rfl
  rw [htrim (trim src), dropWhile_trim, htrim, List.rdropWhile_idempotent]

/-- No space or tab stands at an end. -/
def Trimmed (src : Text) : Prop :=
  src.head?.all (fun c => !whitespace c) = true ∧ src.getLast?.all (fun c => !whitespace c) = true

instance (src : Text) : Decidable (Trimmed src) := inferInstanceAs (Decidable (_ ∧ _))

theorem dropWhile_of_head {src : Text} (h : src.head?.all (fun c => !whitespace c) = true) :
    src.dropWhile whitespace = src := by
  cases src with
  | nil => rfl
  | cons c src =>
    rw [List.dropWhile_cons_of_neg]
    simpa using h

theorem trim_of_trimmed {src : Text} (h : Trimmed src) : trim src = src := by
  have hback : src.reverse.dropWhile whitespace = src.reverse :=
    dropWhile_of_head (by rw [List.head?_reverse]; exact h.2)
  rw [trim, dropWhile_of_head h.1, hback, List.reverse_reverse]

theorem trim_of_blank {src : Text} (h : src.all whitespace = true) : trim src = [] := by
  rw [trim, List.dropWhile_eq_nil_iff.mpr (List.all_eq_true.mp h)]
  rfl

theorem head_of_dropWhile (src : Text) :
    (src.dropWhile whitespace).head?.all (fun c => !whitespace c) = true := by
  have hhead := List.head?_dropWhile_not whitespace src
  split at hhead
  · rename_i c hc
    simp [hc, hhead]
  · rename_i hnone
    simp [hnone]

theorem trimmed_trim (src : Text) : Trimmed (trim src) := by
  constructor
  · rw [← dropWhile_trim]
    exact head_of_dropWhile _
  · rw [trim, List.getLast?_reverse]
    exact head_of_dropWhile _

/-- What is behind a trimmed text matters for the end only. -/
theorem Trimmed.append {a b : Text} (ha : Trimmed a) (hne : a ≠ [])
    (hb : b.getLast?.all (fun c => !whitespace c) = true) : Trimmed (a ++ b) := by
  constructor
  · rw [List.head?_append_of_ne_nil a hne]
    exact ha.1
  · rw [List.getLast?_append]
    cases hlast : b.getLast? with
    | none => exact ha.2
    | some c =>
      rw [hlast] at hb
      exact hb

theorem Trimmed.not_blank {a : Text} (ha : Trimmed a) (hne : a ≠ []) :
    ¬ a.all whitespace = true := by
  intro hall
  exact hne ((trim_of_trimmed ha).symm.trans (trim_of_blank hall))

end util.string
