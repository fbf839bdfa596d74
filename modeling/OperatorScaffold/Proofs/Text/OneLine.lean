import Mathlib.Tactic.SplitIfs
import OperatorScaffold.Decimal.Shortest
import OperatorScaffold.Json.Value
import OperatorScaffold.Naming
import OperatorScaffold.Proofs.Text.Case
import OperatorScaffold.Proofs.Text.Split
/-!
Texts of one line. The spellings of a name stay in its line, and numbers and JSON values are written in
one line whatever texts there are in them.
-/

namespace OperatorScaffold

namespace Text

variable {s t : String} {cs : List Char}

/-- No line feed is in the text. -/
def OneLine (s : String) : Prop := '\n' ∉ s.toList

instance : DecidablePred OneLine := fun s => inferInstanceAs (Decidable ('\n' ∉ s.toList))

@[simp] theorem oneLine_append : OneLine (s ++ t) ↔ OneLine s ∧ OneLine t := by
  simp [OneLine]

@[simp] theorem oneLine_ofList : OneLine (.ofList cs) ↔ '\n' ∉ cs := by
  simp [OneLine]

theorem oneLine_toLower (h : OneLine s) : OneLine (toLower s) :=
  not_mem_toLower (by decide) (by decide) h

theorem oneLine_upperCamel (h : OneLine s) : OneLine (Naming.upperCamel s) := by
  rw [Naming.upperCamel, oneLine_ofList, Naming.upperCamelChars]
  have hpieces : ∀ l ∈ splitWhere Naming.isNameGap s.toList, ∀ c ∈ l, c ≠ '\n' :=
    forall_mem_splitWhere.2 fun c hc => .inr (ne_of_mem_of_not_mem hc h)
  intro hm
  obtain ⟨l, hl, hm⟩ := List.mem_flatMap.1 hm
  exact not_mem_upperFirst (by decide) (by decide) (fun hc => hpieces l hl _ hc rfl) hm

end Text

open Text

theorem feed_not_mem_toDigits (n : Nat) : '\n' ∉ Nat.toDigits 10 n := fun h =>
  absurd (Nat.isDigit_of_mem_toDigits (by decide) (by decide) h) (by decide)

theorem oneLine_repr (n : Nat) : OneLine n.repr := by
  rw [OneLine, Nat.toList_repr]
  exact feed_not_mem_toDigits n

theorem oneLine_toString (n : Int) : OneLine (toString n) := by
  cases n with
  | ofNat n => exact oneLine_repr n
  | negSucc n => exact oneLine_append.2 ⟨by decide, oneLine_repr (n + 1)⟩

theorem Decimal.Style.oneLine_write (style : Style) (x : Binary64) : OneLine (style.write x) := by
  have hdigits := feed_not_mem_toDigits
  have hzeros (n : Nat) : '\n' ∉ zeros n := by simp [zeros]
  have htake (n k : Nat) : '\n' ∉ (Nat.toDigits 10 n).take k := fun h => hdigits n (List.mem_of_mem_take h)
  have hdrop (n k : Nat) : '\n' ∉ (Nat.toDigits 10 n).drop k := fun h => hdigits n (List.mem_of_mem_drop h)
  unfold write
  dsimp only
  rw [oneLine_append, oneLine_ofList]
  refine ⟨by split <;> decide, ?_⟩
  split_ifs <;> simp [hdigits, hzeros, htake, hdrop, -List.drop_one]

namespace Json

theorem hexDigit_ne (n : Nat) : hexDigit (n % 16) ≠ '\n' := by
  have h : ∀ i < 16, hexDigit i ≠ '\n' := by decide
  exact h _ (Nat.mod_lt n (by decide))

theorem feed_not_mem_escapeChar (c : Char) : '\n' ∉ escapeChar c := by
  unfold escapeChar
  split
  iterate 7 decide
  next _ _ hfeed _ _ _ _ =>
    split
    next h =>
      have hhigh : hexDigit (c.toNat / 16) ≠ '\n' := by
        rw [← Nat.mod_eq_of_lt (show c.toNat / 16 < 16 by omega)]
        exact hexDigit_ne _
      simp [Ne.symm hhigh, (hexDigit_ne c.toNat).symm]
    next => simpa using Ne.symm hfeed

theorem oneLine_quote (s : String) : OneLine (quote s) := by
  rw [quote, oneLine_ofList]
  simp [feed_not_mem_escapeChar]

theorem oneLine_commaJoin {ss : List String} (h : ∀ s ∈ ss, OneLine s) : OneLine (commaJoin ss) := by
  induction ss with
  | nil => decide
  | cons s ss ih =>
    have ⟨hs, hss⟩ := List.forall_mem_cons.1 h
    cases ss with
    | nil => exact hs
    | cons t ss => exact oneLine_append.2 ⟨oneLine_append.2 ⟨hs, by decide⟩, ih hss⟩

mutual

theorem oneLine_render : ∀ v : Json, OneLine v.render
  | .null => by decide
  | .bool true => by decide
  | .bool false => by decide
  | .int n => oneLine_toString n
  | .float x => Decimal.Style.oneLine_write .json x
  | .str s => oneLine_quote s
  | .arr items => by
    rw [render, oneLine_append, oneLine_append]
    exact ⟨⟨by decide, oneLine_commaJoin (oneLine_renderItems items)⟩, by decide⟩
  | .obj members => by
    rw [render, oneLine_append, oneLine_append]
    exact ⟨⟨by decide, oneLine_commaJoin (oneLine_renderMembers members)⟩, by decide⟩

theorem oneLine_renderItems : ∀ vs : List Json, ∀ s ∈ renderItems vs, OneLine s
  | [] => nofun
  | v :: vs => List.forall_mem_cons.2 ⟨oneLine_render v, oneLine_renderItems vs⟩

theorem oneLine_renderMembers : ∀ ms : List (String × Json), ∀ s ∈ renderMembers ms, OneLine s
  | [] => nofun
  | (n, v) :: ms => by
    refine List.forall_mem_cons.2 ⟨?_, oneLine_renderMembers ms⟩
    simpa using ⟨⟨oneLine_quote n, by decide⟩, oneLine_render v⟩

end

end Json

end OperatorScaffold
