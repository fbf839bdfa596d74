import OperatorScaffold.Proofs.Yaml.Pen
/-!
What JSON values are written as in YAML. No line of it is a marker line, unless one is in a text of
several lines.
-/

namespace OperatorScaffold

open Marker Text

namespace Json

mutual

/-- The texts in a value, with the names of members. -/
def texts : Json → List String
  | .str s => [s]
  | .arr items => textsOfItems items
  | .obj members => textsOfMembers members
  | _ => []

def textsOfItems : List Json → List String
  | [] => []
  | v :: vs => v.texts ++ textsOfItems vs

def textsOfMembers : List (String × Json) → List String
  | [] => []
  | (n, v) :: ms => n :: v.texts ++ textsOfMembers ms

end

/-- Where a text in the value has several lines, none of them is a marker line. -/
def Quiet (v : Json) : Prop := ∀ s ∈ v.texts, Marker.Quiet s

instance : DecidablePred Quiet := fun v => inferInstanceAs (Decidable (∀ s ∈ v.texts, Marker.Quiet s))

end Json

namespace Yaml

open Pen

mutual

theorem idle_write : ∀ {v : Json} {p : Pen} {indent : Option Nat} {inRecord : Bool},
    v.Quiet → p.Ready →
    (Value.write p indent ⟨inRecord, false⟩ (.ofJson v)).Idle
  | .null, _, _, _, _, h => h.plain (by decide)
  | .bool true, _, _, _, _, h => h.plain (by decide)
  | .bool false, _, _, _, _, h => h.plain (by decide)
  | .int n, _, _, _, _, h => h.plain (oneLine_toString n)
  | .float x, _, _, _, _, h => h.plain (Decimal.Style.oneLine_write .yaml x)
  | .str s, p, indent, inRecord, hv, h => by
    refine h.text ?_ (hv s (by simp [Json.texts]))
    cases indent <;> simp
  | .arr [], p, indent, inRecord, hv, h => by
    have hopen : (p.indicator ['['] true true false).Shut := h.indicator (by decide) true false
    rw [Value.ofJson, Value.ofJsonItems, Value.write]
    exact (hopen.bracket (by decide) false false).idle
  | .obj [], p, indent, inRecord, hv, h => by
    have hopen : (p.indicator ['\x7b'] true true false).Shut := h.indicator (by decide) true false
    rw [Value.ofJson, Value.ofJsonMembers, Value.write]
    exact (hopen.bracket (by decide) false false).idle
  | .arr (v :: vs), p, indent, inRecord, hv, h => by
    exact idle_writeItems (show ∀ s ∈ Json.textsOfItems (v :: vs), Marker.Quiet s from hv) h.idle
  | .obj (m :: ms), p, indent, inRecord, hv, h => by
    obtain ⟨n, v⟩ := m
    exact idle_writeEntries (show ∀ s ∈ Json.textsOfMembers ((n, v) :: ms), Marker.Quiet s from hv) h.idle

theorem idle_writeItems : ∀ {vs : List Json} {p : Pen} {i : Nat},
    (∀ s ∈ Json.textsOfItems vs, Marker.Quiet s) → p.Idle →
    (Value.writeItems p i (Value.ofJsonItems vs)).Idle
  | [], _, _, _, h => h
  | v :: vs, p, i, hv, h => by
    obtain ⟨hv, hvs⟩ := List.forall_mem_append.1 hv
    rw [Value.ofJsonItems, Value.writeItems]
    have hdash := (h.indentTo i).indicator (c := '-') (by decide) (by decide) false true
    exact idle_writeItems hvs (idle_write hv hdash.ready)

theorem idle_writeEntries : ∀ {ms : List (String × Json)} {p : Pen} {i : Nat},
    (∀ s ∈ Json.textsOfMembers ms, Marker.Quiet s) → p.Idle →
    (Value.writeEntries p i (Value.ofJsonMembers ms)).Idle
  | [], _, _, _, h => h
  | (n, v) :: ms, p, i, hv, h => by
    obtain ⟨hn, hv⟩ := List.forall_mem_cons.1 hv
    obtain ⟨hv, hms⟩ := List.forall_mem_append.1 hv
    have hfit := h.indentTo i
    rw [Value.ofJsonMembers, Value.writeEntries]
    refine idle_writeEntries hms (idle_write hv ?_)
    split
    next hsimple =>
      have hline : OneLine n := fun hfeed => by
        simp only [Value.isSimpleKey, Bool.and_eq_true, Bool.not_eq_true'] at hsimple
        exact absurd (List.any_eq_true.2 ⟨_, hfeed, rfl⟩) (ne_true_of_eq_false hsimple.1)
      obtain ⟨l, hkey⟩ := hfit.key (i := i + 2) (by simp) hline
      rw [Value.write]
      exact hkey.colon
    next =>
      have hmark := hfit.indicator (c := '?') (by decide) (by decide) false true
      have hkey := hmark.ready.text (i := i + 2) (by simp) hn
      exact ((hkey.indentTo i).indicator (c := ':') (by decide) (by decide) false true).ready

end

/-- The record of an object is written at the start of a line. -/
theorem unmarked_render {ms : List (String × Json)} (h : (Json.obj ms).Quiet) :
    Unmarked (Value.ofJson (.obj ms)).render.toList := by
  have hfit : start.Fit := ⟨rfl, [], on_start, silent_nil, .inr nofun⟩
  have hidle : start.Idle := ⟨[], on_start, silent_nil, fun _ => .inr nofun⟩
  have hwrite : (Value.write start none ⟨false, false⟩ (.ofJson (.obj ms))).Idle := by
    cases ms with
    | nil =>
      have hopen := hfit.indicator (c := '\x7b') (by decide) (by decide) true false
      rw [Value.ofJson, Value.ofJsonMembers, Value.write]
      exact (hopen.bracket (by decide) false false).idle
    | cons m ms => exact idle_writeEntries h hidle
  obtain ⟨-, l, hon, hl, -⟩ := hwrite.indentTo 0
  rw [Value.render, String.toList_ofList]
  exact hon.unmarked hl

end Yaml

end OperatorScaffold
