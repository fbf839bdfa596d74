import OperatorScaffold.Proofs.Schema.Built
import OperatorScaffold.Proofs.Schema.Validity
/-!
Which defaults the schemas of fields admit, and when they admit the sample. The default of an object is
declared as any object or is put together from the defaults of its own fields. Either can lack a field
that is required, and there is nothing else that the schema could refuse.
-/

namespace OperatorScaffold

open Json Schema

variable {f g : Field} {fs : List Field} {d v : Json} {n : String}

namespace Field

/-- A field at any depth of these. -/
inductive Inside : Field → List Field → Prop
  | here {f : Field} {fs : List Field} : f ∈ fs → Inside f fs
  | deeper {f g : Field} {fs : List Field} : f ∈ fs → Inside g f.fields → Inside g fs

/-- A sample of these fields takes the default `d` of the field `g`. -/
inductive Sampled : Field → Json → List Field → Prop
  | here {f : Field} {d : Json} {fs : List Field} : f ∈ fs → f.default = some d → Sampled f d fs
  | deeper {f g : Field} {d : Json} {fs : List Field} : f ∈ fs → f.default = none → f.kind = .object →
      Sampled g d f.fields → Sampled g d fs

theorem Inside.built (h : g.Inside fs) (hb : ∀ f ∈ fs, f.Built) : g.Built := by
  induction h with
  | here hf => exact hb _ hf
  | deeper hf _ ih => exact ih (hb _ hf).inner

theorem sampled_iff (fs : List Field) : Sampled g d fs ↔ ∃ f ∈ fs, Sampled g d [f] := by
  constructor
  · intro h
    cases h with
    | here hf hd => exact ⟨g, hf, .here (List.mem_singleton_self g) hd⟩
    | deeper hf hd hk hs => exact ⟨_, hf, .deeper (List.mem_singleton_self _) hd hk hs⟩
  · rintro ⟨f, hf, h⟩
    cases h with
    | here hg hd => exact .here (List.mem_singleton.1 hg ▸ hf) hd
    | deeper hg hd hk hs => exact .deeper (List.mem_singleton.1 hg ▸ hf) hd hk hs

theorem sampled_singleton (hd : f.default = none) (hk : f.kind = .object) :
    Sampled g d [f] ↔ Sampled g d f.fields := by
  refine ⟨fun h => ?_, .deeper (List.mem_singleton_self f) hd hk⟩
  cases h with
  | here hg hd' => cases hd.symm.trans (List.mem_singleton.1 hg ▸ hd')
  | deeper hg _ _ hs => exact List.mem_singleton.1 hg ▸ hs

end Field

open OperatorScaffold.Field

namespace Schema

theorem sampleValue_of_default (hd : f.default = some d) : sampleValue f = d := by
  cases f
  cases hd
  rfl

theorem sampleValue_of_object (hd : f.default = none) (hk : f.kind = .object) :
    sampleValue f = sample f.fields := by
  cases f
  cases hd
  cases hk
  rfl

theorem accepts_sampleValue (hd : f.default = none) : f.kind.accepts (sampleValue f) := by
  obtain ⟨name, kind, default, required, description, inner⟩ := f
  cases hd
  cases kind <;> rfl

theorem names_sampleMembers (fs : List Field) : (sampleMembers fs).map Prod.fst = fs.map (·.name) := by
  induction fs with
  | nil => rfl
  | cons f fs ih => simp [sampleMembers, ih]

theorem mem_sampleMembers : (n, v) ∈ sampleMembers fs ↔ ∃ f ∈ fs, f.name = n ∧ sampleValue f = v := by
  induction fs with
  | nil => simp [sampleMembers]
  | cons f fs ih =>
    simp only [sampleMembers, List.mem_cons, ih, Prod.mk.injEq]
    simp [eq_comm]

theorem names_defaults_sublist :
    ((fs.filterMap fun f => f.default.map (f.name, ·)).map Prod.fst).Sublist (fs.map (·.name)) := by
  induction fs with
  | nil => exact .slnil
  | cons f fs ih =>
    cases hd : f.default with
    | none => simpa [hd] using ih.cons _
    | some d => simpa [hd] using ih

section

variable (hn : (fs.map (·.name)).Nodup)

include hn

theorem get?_sample (hf : f ∈ fs) : (sample fs).get? f.name = some (sampleValue f) :=
  (get?_ofMembers (names_sampleMembers fs ▸ hn)).2 (mem_sampleMembers.2 ⟨f, hf, rfl, rfl⟩)

theorem get?_zeroValue (hf : f ∈ fs) : (zeroValue .object fs).get? f.name = f.default := by
  have hnames := hn.sublist names_defaults_sublist
  ext d
  rw [zeroValue, get?_ofMembers hnames, List.mem_filterMap]
  constructor
  · rintro ⟨g, hg, he⟩
    obtain ⟨x, hx, he⟩ := Option.map_eq_some_iff.1 he
    obtain ⟨hname, rfl⟩ := Prod.mk.inj he
    rwa [← List.inj_on_of_nodup_map hn hg hf hname]
  · intro hd
    exact ⟨f, hf, by rw [hd]; rfl⟩

theorem admits_sample : admits (objectSchema fs) (sample fs) ↔
    ∀ f ∈ fs, admits (fieldSchema f) (sampleValue f) := by
  rw [admits_objectSchema hn]
  constructor
  · intro h f hf
    exact h.2.2 f hf _ (get?_sample hn hf)
  · intro h
    refine ⟨rfl, fun f hf _ => ?_, fun f hf x hx => ?_⟩
    · rw [get?_sample hn hf]
      exact Option.some_ne_none _
    · rw [get?_sample hn hf] at hx
      exact Option.some.inj hx ▸ h f hf

theorem admits_zeroValue : admits (objectSchema fs) (zeroValue .object fs) ↔
    ∀ f ∈ fs, (f.required → f.default ≠ none) ∧ ∀ d, f.default = some d → admits (fieldSchema f) d := by
  rw [admits_objectSchema hn]
  constructor
  · intro h f hf
    have := get?_zeroValue hn hf
    exact ⟨fun hr => this ▸ h.2.1 f hf hr, fun d hd => h.2.2 f hf d (this.trans hd)⟩
  · intro h
    refine ⟨rfl, fun f hf hr => ?_, fun f hf x hx => ?_⟩
    · exact get?_zeroValue hn hf ▸ (h f hf).1 hr
    · exact (h f hf).2 x (get?_zeroValue hn hf ▸ hx)

end

/-- Of what a sample takes for a field only the defaults of objects can be refused. -/
theorem admits_sampleValue (h : f.Built) : admits (fieldSchema f) (sampleValue f) ↔
    ∀ g d, Sampled g d [f] → g.kind = .object → admits (fieldSchema g) d := by
  induction h with
  | @mk name kind default required description inner ha hr hn _ ih =>
    set f : Field := ⟨name, kind, default, required, description, inner⟩ with hf
    cases hd : f.default with
    | some d =>
      rw [sampleValue_of_default hd]
      constructor
      · rintro h g d' hs -
        cases hs with
        | here hg hd' =>
          obtain rfl := List.mem_singleton.1 hg
          rwa [← Option.some.inj (hd.symm.trans hd')]
        | deeper hg hd' =>
          obtain rfl := List.mem_singleton.1 hg
          cases hd.symm.trans hd'
      · intro h
        by_cases hk : f.kind = .object
        · exact h f d (.here (List.mem_singleton_self f) hd) hk
        · rw [admits_of_not_object hk]
          exact ha d hd
    | none =>
      by_cases hk : f.kind = .object
      · rw [sampleValue_of_object hd hk, admits_of_object hk, admits_sample hn]
        simp only [sampled_singleton hd hk, sampled_iff f.fields]
        constructor
        · rintro h g d ⟨g', hg', hs⟩
          exact (ih g' hg').1 (h g' hg') g d hs
        · exact fun h g' hg' => (ih g' hg').2 fun g d hs => h g d ⟨g', hg', hs⟩
      · rw [admits_of_not_object hk]
        refine iff_of_true (accepts_sampleValue hd) fun g d hs => ?_
        cases hs with
        | here hg hd' =>
          obtain rfl := List.mem_singleton.1 hg
          cases hd.symm.trans hd'
        | deeper hg _ hk' =>
          obtain rfl := List.mem_singleton.1 hg
          exact absurd hk' hk

end Schema

/-- The schema of a resource and the defaults in it, for every document that is accepted. It admits the
sample unless the sample takes a default for an object that the schema of this object refuses; a default
for anything else is admitted at every depth. What an object is refused for is a field that it lacks or
that is refused itself, and a default put together from the fields of an object lacks those that are
required and have none. -/
theorem Workload.schema_admits {w : Workload} {space : Workspace} {path : Path} {r : Resource}
    (h : parse space path = .ok w) (hr : r ∈ w.resources) :
    (admits (objectSchema r.fields) (sample r.fields) ↔
      ∀ g d, Sampled g d r.fields → g.kind = .object → admits (fieldSchema g) d) ∧
    ∀ f, f.Inside r.fields →
      (f.kind ≠ .object → ∀ d, (fieldSchema f).get? "default" = some d → admits (fieldSchema f) d) ∧
      (f.kind = .object →
        (∀ v, admits (fieldSchema f) v ↔ v.isObj ∧
          (∀ g ∈ f.fields, g.required → v.get? g.name ≠ none) ∧
          ∀ g ∈ f.fields, ∀ x, v.get? g.name = some x → admits (fieldSchema g) x) ∧
        (admits (fieldSchema f) (zeroValue .object f.fields) ↔
          ∀ g ∈ f.fields, (g.required → g.default ≠ none) ∧
            ∀ d, g.default = some d → admits (fieldSchema g) d)) := by
  obtain ⟨hn, hb⟩ := built_of_parse h hr
  refine ⟨?_, fun f hf => ⟨fun hk d hd => ?_, fun hk => ⟨fun v => ?_, ?_⟩⟩⟩
  · rw [admits_sample hn]
    constructor
    · intro h g d hs
      obtain ⟨f, hf, hs⟩ := (sampled_iff _).1 hs
      exact (admits_sampleValue (hb f hf)).1 (h f hf) g d hs
    · exact fun h f hf => (admits_sampleValue (hb f hf)).2 fun g d hs => h g d ((sampled_iff _).2 ⟨f, hf, hs⟩)
  · rw [get?_default, shownDefault, Option.filter_eq_some_iff] at hd
    rw [admits_of_not_object hk]
    exact (hf.built hb).accepts hd.1
  · rw [admits_of_object hk, admits_objectSchema (hf.built hb).nodup]
  · rw [admits_of_object hk, admits_zeroValue (hf.built hb).nodup]

namespace Mail

/-- An object that may be left out, with a field inside that is required. -/
def document : String :=
  "\x7b\"apiVersion\":\"opforge.dev/v1alpha1\",\"kind\":\"StandaloneWorkload\",\"name\":\"mail\",\"spec\":\x7b" ++
    "\"repository\":\"r\",\"api\":\x7b\"group\":\"g\",\"version\":\"v1\",\"kind\":\"Mail\"\x7d,\"fields\":[\x7b" ++
    "\"name\":\"retry\",\"type\":\"object\",\"fields\":[\x7b\"name\":\"limit\",\"type\":\"int\",\"required\":true" ++
    "\x7d,\x7b\"name\":\"delay\",\"type\":\"int\"\x7d]\x7d]\x7d\x7d"

def documents : Workspace := ⟨⟨[(["w.json"], .file (.text document) 0o644)]⟩, [], []⟩

/-- The schema refuses the sample, and one of the schemas in it the default that it tells. -/
def isRefused (fs : List Field) : Bool :=
  !admits (objectSchema fs) (sample fs) &&
    fs.any fun f => ((fieldSchema f).get? "default").any fun d => !admits (fieldSchema f) d

theorem exists_isRefused : ∃ w r, Workload.parse documents ⟨"w.json"⟩ = .ok w ∧ r ∈ w.resources ∧
    isRefused r.fields := by
  have hrun : ((Workload.ofText? "/w.json" document).bind Except.toOption).any fun w =>
      w.resources.any fun r => isRefused r.fields := by
    have htext : document.toList = _ :=
      Workload.toList_append_eq (Workload.toList_append_eq
        (Workload.toList_append_eq String.toList_ofList String.toList_ofList) String.toList_ofList)
        String.toList_ofList
    rw [Workload.ofText?, Json.read, htext]
    decide +kernel
  have hhere : documents.canonical ⟨"w.json"⟩ = .ok ⟨"/w.json"⟩ := rfl
  obtain ⟨w, hw, hrun⟩ := Workload.exists_parse_of_any hhere rfl (by decide) hrun
  obtain ⟨r, hr, hf⟩ := List.any_eq_true.1 hrun
  exact ⟨w, r, hw, hr, hf⟩

theorem a_default_is_refused_with_the_sample : ∃ w r g d,
    Workload.parse documents ⟨"w.json"⟩ = .ok w ∧ r ∈ w.resources ∧
      ¬admits (objectSchema r.fields) (sample r.fields) ∧
      Sampled g d r.fields ∧ g.kind = .object ∧ ¬admits (fieldSchema g) d := by
  obtain ⟨w, r, hw, hr, hf⟩ := exists_isRefused
  have hs : ¬admits (objectSchema r.fields) (sample r.fields) := by
    simpa using (Bool.and_eq_true_iff.1 hf).1
  have hall := mt (Workload.schema_admits hw hr).1.2 hs
  simp only [not_forall] at hall
  obtain ⟨g, d, hg, hk, hd⟩ := hall
  exact ⟨w, r, g, d, hw, hr, hs, hg, hk, hd⟩

/-- The default of the object lacks the limit, and the sample lacks it there. -/
theorem default_lacks_what_is_required : ∃ w r f d,
    Workload.parse documents ⟨"w.json"⟩ = .ok w ∧ r ∈ w.resources ∧
      ¬admits (objectSchema r.fields) (sample r.fields) ∧
      f ∈ r.fields ∧ (fieldSchema f).get? "default" = some d ∧ ¬admits (fieldSchema f) d := by
  obtain ⟨w, r, hw, hr, hf⟩ := exists_isRefused
  obtain ⟨hs, hf⟩ := Bool.and_eq_true_iff.1 hf
  obtain ⟨f, hmem, hf⟩ := List.any_eq_true.1 hf
  obtain ⟨d, hd, hf⟩ := (Option.any_eq_true _ _).1 hf
  exact ⟨w, r, f, d, hw, hr, by simpa using hs, hmem, hd, by simpa using hf⟩

end Mail

end OperatorScaffold
