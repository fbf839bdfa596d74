import OperatorScaffold.Proofs.Schema.Defaults
import OperatorScaffold.Proofs.Yaml.Rendering
/-!
The texts of fields in the schema and in the sample that are made of them. What is known of the texts in
each field is known of the YAML of both.
-/

namespace OperatorScaffold

open Marker Text

variable {s n : String} {v d : Json} {ms acc : List (String × Json)} {vs : List Json} {f : Field}
  {fs : List Field} {ls : List String}

theorem Text.OneLine.quiet (h : OneLine s) : Marker.Quiet s := fun hfeed => absurd hfeed h

namespace Json

theorem quiet_str : (str s).Quiet ↔ Marker.Quiet s := List.forall_mem_singleton

theorem quiet_arr : (arr vs).Quiet ↔ ∀ v ∈ vs, v.Quiet := by
  change (∀ s ∈ textsOfItems vs, Marker.Quiet s) ↔ _
  induction vs with
  | nil => simp [textsOfItems]
  | cons v vs ih =>
    rw [textsOfItems, List.forall_mem_append, ih, List.forall_mem_cons]
    rfl

theorem quiet_obj_cons : (obj ((n, v) :: ms)).Quiet ↔ Marker.Quiet n ∧ v.Quiet ∧ (obj ms).Quiet := by
  change (∀ s ∈ n :: v.texts ++ textsOfMembers ms, Marker.Quiet s) ↔ _
  rw [List.cons_append, List.forall_mem_cons, List.forall_mem_append]
  rfl

theorem quiet_insertMember (hn : Marker.Quiet n) (hv : v.Quiet) (hms : (obj ms).Quiet) :
    (obj (insertMember n v ms)).Quiet := by
  fun_induction insertMember n v ms with
  | case1 => exact quiet_obj_cons.2 ⟨hn, hv, hms⟩
  | case2 => exact quiet_obj_cons.2 ⟨hn, hv, hms⟩
  | case3 => exact quiet_obj_cons.2 ⟨hn, hv, (quiet_obj_cons.1 hms).2.2⟩
  | case4 _ _ _ _ _ ih =>
    obtain ⟨hn', hv', hms⟩ := quiet_obj_cons.1 hms
    exact quiet_obj_cons.2 ⟨hn', hv', ih hms⟩

theorem Quiet.set (hv : v.Quiet) (hn : Marker.Quiet n) (hd : d.Quiet) : (v.set n d).Quiet := by
  cases v with
  | obj ms => exact quiet_insertMember hn hd hv
  | _ => exact hv

theorem quiet_ofMembers (h : (obj ms).Quiet) : (ofMembers ms).Quiet := by
  have fold (acc : List (String × Json)) (hacc : (obj acc).Quiet) :
      (obj (ms.foldl (fun acc m => insertMember m.1 m.2 acc) acc)).Quiet := by
    induction ms generalizing acc with
    | nil => exact hacc
    | cons m ms ih =>
      obtain ⟨hn, hv, hms⟩ := quiet_obj_cons.1 h
      exact ih hms _ (quiet_insertMember hn hv hacc)
  exact fold [] nofun

end Json

theorem Field.Inside.tail {g : Field} (h : g.Inside fs) (f : Field) : g.Inside (f :: fs) := by
  cases h with
  | here hf => exact .here (List.mem_cons_of_mem f hf)
  | deeper hf hg => exact .deeper (List.mem_cons_of_mem f hf) hg

/-- A field with no text that makes a marker line where it stands alone in a line of a file: behind `//`
or, where it has several lines, in one of them. -/
structure Field.Quiet (f : Field) : Prop where
  name : OneLine f.name
  comment : ∀ t, f.description = some t → ∀ l ∈ Text.lines t, delimiter? ("// " ++ l) = none
  description : ∀ t, f.description = some t → Marker.Quiet t
  default : ∀ d, f.default = some d → d.Quiet

namespace Schema

theorem quiet_described {t : Option String} (ht : ∀ s, t = some s → Marker.Quiet s) (hv : v.Quiet) :
    (described t v).Quiet := by
  cases t with
  | none => exact hv
  | some s => exact hv.set (by decide) (Json.quiet_str.2 (ht s rfl))

theorem quiet_defaulted {t : Option Json} (ht : ∀ d, t = some d → d.Quiet) (hv : v.Quiet) :
    (defaulted t v).Quiet := by
  cases t with
  | none => exact hv
  | some d => exact hv.set (by decide) (ht d rfl)

theorem quiet_objectOf (hn : ∀ f ∈ fs, OneLine f.name) (hms : (Json.obj ms).Quiet) :
    (objectOf fs ms).Quiet := by
  have hobject : (Json.ofMembers [("type", .str "object"), ("properties", .ofMembers ms)]).Quiet := by
    refine Json.quiet_ofMembers (Json.quiet_obj_cons.2 ⟨by decide, by decide, ?_⟩)
    exact Json.quiet_obj_cons.2 ⟨by decide, Json.quiet_ofMembers hms, by decide⟩
  unfold objectOf
  dsimp only
  split
  next => exact hobject
  next =>
    refine hobject.set (by decide) (Json.quiet_arr.2 fun v hv => ?_)
    obtain ⟨f, hf, rfl⟩ := List.mem_map.1 hv
    exact Json.quiet_str.2 (hn f (List.mem_of_mem_filter hf)).quiet

mutual

theorem quiet_fieldSchema : ∀ f : Field, f.Quiet → (∀ g : Field, g.Inside f.fields → g.Quiet) →
    (fieldSchema f).Quiet
  | .mk name kind default required description inner, h, hin => by
    unfold fieldSchema
    refine quiet_defaulted (fun d hd => ?_) (quiet_described h.description ?_)
    · exact h.default d (Option.filter_eq_some_iff.1 hd).1
    · split
      iterate 4 decide
      exact quiet_objectOf (fun f hf => (hin f (.here hf)).name) (quiet_propertySchemas inner hin)

theorem quiet_propertySchemas : ∀ fs : List Field, (∀ g : Field, g.Inside fs → g.Quiet) →
    (Json.obj (propertySchemas fs)).Quiet
  | [], _ => nofun
  | f :: fs, h => by
    have hf := h f (.here List.mem_cons_self)
    have hin (g : Field) (hg : g.Inside f.fields) : g.Quiet := h g (.deeper List.mem_cons_self hg)
    refine Json.quiet_obj_cons.2 ⟨hf.name.quiet, quiet_fieldSchema f hf hin, ?_⟩
    exact quiet_propertySchemas fs fun g hg => h g (hg.tail f)

end

theorem quiet_openApi (h : ∀ g : Field, g.Inside fs → g.Quiet) : (openApi fs).Quiet := by
  have hspec : (objectSchema fs).Quiet :=
    quiet_objectOf (fun f hf => (h f (.here hf)).name) (quiet_propertySchemas fs h)
  refine Json.quiet_ofMembers (Json.quiet_obj_cons.2 ⟨by decide, by decide, ?_⟩)
  refine Json.quiet_obj_cons.2 ⟨by decide, Json.quiet_ofMembers ?_, by decide⟩
  iterate 3 refine Json.quiet_obj_cons.2 ⟨by decide, by decide, ?_⟩
  exact Json.quiet_obj_cons.2 ⟨by decide, hspec, by decide⟩

mutual

theorem quiet_sampleValue : ∀ f : Field, f.Quiet → (∀ g : Field, g.Inside f.fields → g.Quiet) →
    (sampleValue f).Quiet
  | .mk name kind default required description inner, h, hin => by
    unfold sampleValue
    split
    next d => exact h.default d rfl
    next =>
      split
      next => exact Json.quiet_ofMembers (quiet_sampleMembers inner hin)
      iterate 4 decide

theorem quiet_sampleMembers : ∀ fs : List Field, (∀ g : Field, g.Inside fs → g.Quiet) →
    (Json.obj (sampleMembers fs)).Quiet
  | [], _ => nofun
  | f :: fs, h => by
    have hf := h f (.here List.mem_cons_self)
    have hin (g : Field) (hg : g.Inside f.fields) : g.Quiet := h g (.deeper List.mem_cons_self hg)
    refine Json.quiet_obj_cons.2 ⟨hf.name.quiet, quiet_sampleValue f hf hin, ?_⟩
    exact quiet_sampleMembers fs fun g hg => h g (hg.tail f)

end

theorem quiet_sample (h : ∀ g : Field, g.Inside fs → g.Quiet) : (sample fs).Quiet :=
  Json.quiet_ofMembers (quiet_sampleMembers fs h)

theorem unmarked_joinLines : Unmarked (joinLines ls).toList ↔ ∀ l ∈ ls, Unmarked l.toList := by
  induction ls with
  | nil => simp [joinLines, unmarked_nil]
  | cons l ls ih =>
    cases ls with
    | nil => simp [joinLines]
    | cons l' ls =>
      have hfeed : "\n".toList = ['\n'] := rfl
      have hjoin : joinLines (l :: l' :: ls) = l ++ "\n" ++ joinLines (l' :: ls) := rfl
      rw [hjoin, String.toList_append, String.toList_append, hfeed, List.append_assoc,
        List.singleton_append, unmarked_append_feed, ih]
      exact (List.forall_mem_cons (p := fun s : String => Unmarked s.toList)).symm

/-- Blanks in front of a line of a text make no marker line of it. -/
theorem unmarked_indented {pad : List Char} (hp : ∀ c ∈ pad, c = ' ') (hs : Unmarked s.toList) :
    Unmarked (joinLines ((Text.lines s).map (.ofList pad ++ ·))).toList := by
  refine unmarked_joinLines.2 fun l hl => ?_
  obtain ⟨l, hline, rfl⟩ := List.mem_map.1 hl
  have hfeed : '\n' ∉ pad ++ l.toList := fun hc => by
    obtain hc | hc := List.mem_append.1 hc
    · exact absurd (hp _ hc) (by decide)
    · exact oneLine_of_mem_lines hline hc
  rw [String.toList_append, String.toList_ofList, unmarked_iff_silent hfeed,
    silent_blanks_append fun c hc => hp c hc ▸ rfl]
  exact hs.silent_of_mem_lines hline

theorem unmarked_yamlBlock {ms : List (String × Json)} (h : (Json.obj ms).Quiet) (indent : Nat) :
    Unmarked (yamlBlock (.obj ms) indent).toList :=
  unmarked_indented (fun _ => List.eq_of_mem_replicate) (Yaml.unmarked_render h)

end Schema

end OperatorScaffold
