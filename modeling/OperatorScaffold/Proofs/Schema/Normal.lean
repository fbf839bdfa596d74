import OperatorScaffold.Proofs.Schema.Defaults
import OperatorScaffold.Proofs.Workload.Linking
/-!
What becomes of a list of declared fields. A list that has no fault gives a field for each declaration, and
so do the lists inside it, at every depth; the error of any other list tells one of its faults.
-/

namespace OperatorScaffold

open Text Naming

namespace FieldDeclaration

def name? (d : FieldDeclaration) : Option String := d.name >>= nonBlank?

def type? (d : FieldDeclaration) : Option String := d.type >>= nonBlank?

def kind? (d : FieldDeclaration) : Option FieldKind := d.type? >>= FieldKind.ofDeclared?

/-- What is wrong with the declaration that stands here, whatever is declared before and inside it. -/
inductive Fault (doc : DocumentLabel) (here : String) : FieldDeclaration → ParseError → Prop
  | nameless {d : FieldDeclaration} : d.name? = none → Fault doc here d (.missingField doc s!"{here}.name")
  | typeless {d : FieldDeclaration} : d.type? = none → Fault doc here d (.missingField doc s!"{here}.type")
  | unknown {d : FieldDeclaration} {name type : String} : d.name? = some name → d.type? = some type →
      FieldKind.ofDeclared? type = none → Fault doc here d (.unknownFieldType doc name type)
  | nested {d : FieldDeclaration} {name : String} {kind : FieldKind} : d.name? = some name →
      d.kind? = some kind → kind ≠ .object → d.fields ≠ [] →
      Fault doc here d (.invalidValue doc s!"{here}.fields" (.fieldsInside name kind))
  | default {d : FieldDeclaration} {name : String} {kind : FieldKind} {v : Json} : d.name? = some name →
      d.kind? = some kind → d.default = some v → ¬kind.accepts v →
      Fault doc here d (.invalidDefault doc name v kind)

/-- Where a declaration of a list stands. -/
def place (path : String) (i : Nat) : String := s!"{path}[{i}]"

/-- What is wrong with a list of declarations or with one inside it: a declaration has a fault of its own,
or its name is exported as that of one before. -/
inductive Faulty (doc : DocumentLabel) : String → List FieldDeclaration → ParseError → Prop
  | own {path : String} {ds : List FieldDeclaration} {i : Nat} {d : FieldDeclaration} {e : ParseError} :
      ds[i]? = some d → d.Fault doc (place path i) e → Faulty doc path ds e
  | clash {path : String} {ds : List FieldDeclaration} {i j : Nat} {d d' : FieldDeclaration} {n n' : String} :
      i < j → ds[i]? = some d → ds[j]? = some d' → d.name? = some n → d'.name? = some n' →
      upperCamel n = upperCamel n' →
      Faulty doc path ds (.invalidValue doc s!"{place path j}.name" (.clash n' n (upperCamel n')))
  | inside {path : String} {ds : List FieldDeclaration} {i : Nat} {d : FieldDeclaration} {e : ParseError} :
      ds[i]? = some d → Faulty doc s!"{place path i}.fields" d.fields e → Faulty doc path ds e

end FieldDeclaration

open FieldDeclaration

namespace Field

/-- A field at any depth with what declares it, place by place. -/
inductive Declared : FieldDeclaration → Field → List FieldDeclaration → List Field → Prop
  | here {ds : List FieldDeclaration} {fs : List Field} {i : Nat} {d : FieldDeclaration} {f : Field} :
      ds[i]? = some d → fs[i]? = some f → Declared d f ds fs
  | deeper {ds : List FieldDeclaration} {fs : List Field} {i : Nat} {d d' : FieldDeclaration} {f f' : Field} :
      ds[i]? = some d → fs[i]? = some f → Declared d' f' d.fields f.fields → Declared d' f' ds fs

/-- No two fields have one name, nor are they exported under one. -/
structure Distinct (fs : List Field) : Prop where
  names : (fs.map (·.name)).Nodup
  exported : (fs.map fun f => upperCamel f.name).Nodup

/-- What a field is by its declaration. -/
structure Normal (d : FieldDeclaration) (f : Field) : Prop where
  name : d.name? = some f.name
  kind : d.kind? = some f.kind
  required : f.required = d.required.getD false
  description : f.description = d.description >>= nonBlank?
  length : f.fields.length = d.fields.length
  distinct : Distinct f.fields
  object : f.kind ≠ .object → f.fields = []
  default_eq_none : f.default = none ↔ f.required ∧ d.default = none
  declared : ∀ v, d.default = some v → f.default = some v
  accepts : ∀ v, f.default = some v → f.kind.accepts v
  /-- The object has the defaults of the fields inside, and nothing else. -/
  zero : f.kind = .object → ¬f.required → d.default = none → ∃ ms, f.default = some (.obj ms) ∧
    (ms.map Prod.fst).Nodup ∧ ∀ n v, (n, v) ∈ ms ↔ ∃ g ∈ f.fields, g.name = n ∧ g.default = some v

variable {doc : DocumentLabel} {path here : String} {d : FieldDeclaration} {ds : List FieldDeclaration}
  {f : Field} {fs before : List Field} {e : ParseError}

theorem clashing?_eq_none : clashing? before f = none ↔
    ∀ g ∈ before, upperCamel g.name ≠ upperCamel f.name := by
  simp only [clashing?, List.find?_eq_none, Bool.or_eq_true, beq_iff_eq, not_or]
  exact forall₂_congr fun g _ => and_iff_right_of_imp fun h he => h (congrArg upperCamel he)

theorem Distinct.concat (h : Distinct before) (hf : clashing? before f = none) : Distinct (before ++ [f]) := by
  have hne := clashing?_eq_none.1 hf
  constructor
  · rw [List.map_append, List.map_singleton, ← List.concat_eq_append, List.nodup_concat]
    exact ⟨name_not_mem_of_clashing? hf, h.names⟩
  · rw [List.map_append, List.map_singleton, ← List.concat_eq_append, List.nodup_concat]
    refine ⟨fun hm => ?_, h.exported⟩
    obtain ⟨g, hg, he⟩ := List.mem_map.1 hm
    exact hne g hg he

/-- How a declaration is read: part by part, the fields inside as a list of their own. -/
theorem ofDeclaration_eq_ok (h : ofDeclaration doc here d = .ok f) :
    d.name? = some f.name ∧ d.kind? = some f.kind ∧ (f.kind ≠ .object → d.fields = []) ∧
      ofDeclarations doc s!"{here}.fields" [] d.fields = .ok f.fields ∧ f.required = d.required.getD false ∧
      settleDefault doc f.name f.kind f.required f.fields d.default = .ok f.default ∧
      f.description = d.description >>= nonBlank? := by
  obtain ⟨name, type, default, required, description, inner⟩ := d
  rw [ofDeclaration] at h
  obtain ⟨name', hname, h⟩ := bind_eq_ok.1 h
  obtain ⟨declared, htype, h⟩ := bind_eq_ok.1 h
  split at h
  next => cases h
  next kind hkind =>
    obtain ⟨hnested, h⟩ := guard_eq_ok.1 h
    obtain ⟨fields, hfields, h⟩ := bind_eq_ok.1 h
    obtain ⟨default', hdefault, h⟩ := bind_eq_ok.1 h
    cases h
    refine ⟨Workload.demand_eq_ok.1 hname, ?_, fun hk => ?_, hfields, rfl, hdefault, rfl⟩
    · exact Option.bind_eq_some_iff.2 ⟨declared, Workload.demand_eq_ok.1 htype, hkind⟩
    · by_contra hne
      exact hnested (by simpa using ⟨hk, hne⟩)

/-- A list is read one by one, and what is read stays distinct. -/
theorem ofDeclarations_eq_ok (h : ofDeclarations doc path before ds = .ok fs) :
    ∃ new, fs = before ++ new ∧ List.Forall₂ (fun d f => ∃ here, ofDeclaration doc here d = .ok f) ds new ∧
      (Distinct before → Distinct fs) := by
  induction ds generalizing before with
  | nil =>
    rw [ofDeclarations] at h
    cases h
    exact ⟨[], (List.append_nil _).symm, .nil, id⟩
  | cons d ds ih =>
    rw [ofDeclarations] at h
    obtain ⟨f, hf, h⟩ := bind_eq_ok.1 h
    split at h
    next => cases h
    next hclash =>
      obtain ⟨new, rfl, hnew, hdistinct⟩ := ih h
      exact ⟨f :: new, List.append_assoc .., .cons ⟨_, hf⟩ hnew, fun hb => hdistinct (hb.concat hclash)⟩

theorem forall₂_of_read (h : ofDeclarations doc path [] ds = .ok fs) :
    List.Forall₂ (fun d f => ∃ here, ofDeclaration doc here d = .ok f) ds fs := by
  obtain ⟨new, rfl, hnew, -⟩ := ofDeclarations_eq_ok h
  exact hnew

theorem distinct_of_read (h : ofDeclarations doc path [] ds = .ok fs) : Distinct fs := by
  obtain ⟨-, -, -, hdistinct⟩ := ofDeclarations_eq_ok h
  exact hdistinct ⟨.nil, .nil⟩

theorem exists_read_at {i : Nat} (h : ofDeclarations doc path [] ds = .ok fs) (hd : ds[i]? = some d) :
    ∃ f here, fs[i]? = some f ∧ ofDeclaration doc here d = .ok f := by
  obtain ⟨hlength, hget⟩ := List.forall₂_iff_get.1 (forall₂_of_read h)
  obtain ⟨hi, rfl⟩ := List.getElem?_eq_some_iff.1 hd
  obtain ⟨here, hf⟩ := hget i hi (hlength ▸ hi)
  exact ⟨_, here, List.getElem?_eq_getElem _, hf⟩

theorem read_at {i : Nat} (h : ofDeclarations doc path [] ds = .ok fs) (hd : ds[i]? = some d)
    (hf : fs[i]? = some f) : ∃ here, ofDeclaration doc here d = .ok f := by
  obtain ⟨f', here, hf', hread⟩ := exists_read_at h hd
  obtain rfl := Option.some.inj (hf.symm.trans hf')
  exact ⟨here, hread⟩

theorem Declared.read (hd : Declared d f ds fs) : ∀ {path}, ofDeclarations doc path [] ds = .ok fs →
    ∃ here, ofDeclaration doc here d = .ok f := by
  induction hd with
  | here hd hf => exact fun h => read_at h hd hf
  | deeper hd hf _ ih =>
    intro path h
    obtain ⟨here, hread⟩ := read_at h hd hf
    obtain ⟨-, -, -, hinner, -⟩ := ofDeclaration_eq_ok hread
    exact ih hinner

theorem exists_declared (hf : f.Inside fs) : ∀ {ds path}, ofDeclarations doc path [] ds = .ok fs →
    ∃ d, Declared d f ds fs := by
  have declared {g : Field} {gs : List Field} (hg : g ∈ gs) {ds path}
      (h : ofDeclarations doc path [] ds = .ok gs) : ∃ (i : Nat) (d : FieldDeclaration),
        ds[i]? = some d ∧ gs[i]? = some g := by
    obtain ⟨i, hi, rfl⟩ := List.mem_iff_getElem.1 hg
    have hlength := (forall₂_of_read h).length_eq
    exact ⟨i, _, List.getElem?_eq_getElem (hlength ▸ hi), List.getElem?_eq_getElem hi⟩
  induction hf with
  | here hf =>
    intro ds path h
    obtain ⟨i, d, hd, hf⟩ := declared hf h
    exact ⟨d, .here hd hf⟩
  | deeper hf _ ih =>
    intro ds path h
    obtain ⟨i, d, hd, hf⟩ := declared hf h
    obtain ⟨here, hread⟩ := read_at h hd hf
    obtain ⟨-, -, -, hinner, -⟩ := ofDeclaration_eq_ok hread
    obtain ⟨d', hdeclared⟩ := ih hinner
    exact ⟨d', .deeper hd hf hdeclared⟩

theorem zeroValue_object (hn : (fs.map (·.name)).Nodup) : ∃ ms, zeroValue .object fs = .obj ms ∧
    (ms.map Prod.fst).Nodup ∧ ∀ n v, (n, v) ∈ ms ↔ ∃ g ∈ fs, g.name = n ∧ g.default = some v := by
  have hnames := hn.sublist Schema.names_defaults_sublist
  obtain ⟨ms, hms, hperm⟩ := Json.ofMembers_spec hnames
  refine ⟨ms, hms, (hperm.map _).nodup_iff.2 hnames, fun n v => ?_⟩
  rw [hperm.mem_iff, List.mem_filterMap]
  refine exists_congr fun g => and_congr_right fun _ => ?_
  rw [Option.map_eq_some_iff]
  constructor
  · rintro ⟨x, hx, he⟩
    cases he
    exact ⟨rfl, hx⟩
  · rintro ⟨rfl, hv⟩
    exact ⟨v, hv, rfl⟩

theorem normal_of_read (h : ofDeclaration doc here d = .ok f) : Normal d f := by
  obtain ⟨hname, hkind, hobject, hinner, hrequired, hdefault, hdescription⟩ := ofDeclaration_eq_ok h
  have hdistinct := distinct_of_read hinner
  have hlength := (forall₂_of_read hinner).length_eq.symm
  obtain ⟨haccepts, hnone⟩ := settleDefault_eq_ok hdefault
  refine ⟨hname, hkind, hrequired, hdescription, hlength, hdistinct, fun hk => ?_, ?_, fun v hv => ?_, haccepts,
    fun hk hr hn => ?_⟩
  · rw [hobject hk] at hlength
    exact List.eq_nil_of_length_eq_zero hlength
  · constructor
    · intro hd
      refine ⟨hnone hd, ?_⟩
      cases hv : d.default with
      | none => rfl
      | some v =>
        simp only [settleDefault, hv, hd] at hdefault
        split at hdefault <;> cases hdefault
    · rintro ⟨hr, hn⟩
      simp only [settleDefault, hn, hr, if_true, Except.ok.injEq] at hdefault
      exact hdefault.symm
  · simp only [settleDefault, hv] at hdefault
    split at hdefault
    next => exact (Except.ok.inj hdefault).symm
    next => cases hdefault
  · simp only [settleDefault, hn, hk, if_neg hr, Except.ok.injEq] at hdefault
    rw [← hdefault]
    obtain ⟨ms, hms, hzero⟩ := zeroValue_object hdistinct.names
    exact ⟨ms, congrArg some hms, hzero⟩

theorem settleDefault_eq_error {name : String} {kind : FieldKind} {required : Bool} {inner : List Field}
    {declared : Option Json} (h : settleDefault doc name kind required inner declared = .error e) :
    ∃ v, declared = some v ∧ ¬kind.accepts v ∧ .invalidDefault doc name v kind = e := by
  unfold settleDefault at h
  split at h
  next v =>
    split at h
    next => cases h
    next hv => exact ⟨v, rfl, hv, Except.error.inj h⟩
  next => cases h

mutual

/-- The error of a declaration tells a fault of its own or one of the list inside it. -/
theorem fault_of_ofDeclaration : ∀ {d : FieldDeclaration} {here : String} {e : ParseError},
    ofDeclaration doc here d = .error e → d.Fault doc here e ∨ Faulty doc s!"{here}.fields" d.fields e
  | ⟨name, type, default, required, description, inner⟩, here, e, h => by
    rw [ofDeclaration] at h
    obtain h | ⟨name', hname, h⟩ := bind_eq_error.1 h
    · obtain ⟨hname, rfl⟩ := Workload.demand_eq_error.1 h
      exact .inl (.nameless hname)
    obtain h | ⟨type', htype, h⟩ := bind_eq_error.1 h
    · obtain ⟨htype, rfl⟩ := Workload.demand_eq_error.1 h
      exact .inl (.typeless htype)
    rw [Workload.demand_eq_ok] at hname htype
    split at h
    next hkind =>
      cases h
      exact .inl (.unknown hname htype hkind)
    next kind hkind =>
      have hkind : FieldDeclaration.kind? ⟨name, type, default, required, description, inner⟩ = some kind :=
        Option.bind_eq_some_iff.2 ⟨type', htype, hkind⟩
      obtain ⟨hnested, rfl⟩ | ⟨-, h⟩ := guard_eq_error.1 h
      · have hnested : kind ≠ .object ∧ inner ≠ [] := by simpa using hnested
        exact .inl (.nested hname hkind hnested.1 hnested.2)
      obtain h | ⟨fields, -, h⟩ := bind_eq_error.1 h
      · have hfaulty : Faulty doc s!"{here}.fields" ([] ++ inner) e := faulty_of_ofDeclarations .nil h
        exact .inr hfaulty
      obtain h | ⟨_, -, h⟩ := bind_eq_error.1 h
      · obtain ⟨v, hv, haccepts, rfl⟩ := settleDefault_eq_error h
        exact .inl (.default hname hkind hv haccepts)
      · cases h

/-- The error of a list tells a fault of it, where `done` declares what is read before. -/
theorem faulty_of_ofDeclarations : ∀ {ds done : List FieldDeclaration} {path : String} {before : List Field}
    {e : ParseError}, List.Forall₂ (fun d f => d.name? = some f.name) done before →
    ofDeclarations doc path before ds = .error e → Faulty doc path (done ++ ds) e
  | [], done, path, before, e, hdone, h => by
    rw [ofDeclarations] at h
    cases h
  | d :: ds, done, path, before, e, hdone, h => by
    have hhere : (done ++ d :: ds)[before.length]? = some d := by
      rw [← hdone.length_eq, List.getElem?_append_right le_rfl, Nat.sub_self]
      rfl
    rw [ofDeclarations] at h
    obtain h | ⟨f, hf, h⟩ := bind_eq_error.1 h
    · obtain hfault | hfaulty := fault_of_ofDeclaration h
      · exact .own hhere hfault
      · exact .inside hhere hfaulty
    obtain ⟨hname, -⟩ := ofDeclaration_eq_ok hf
    split at h
    next g hclash =>
      cases h
      obtain ⟨i, hi, rfl⟩ := List.mem_iff_getElem.1 (List.mem_of_find?_eq_some hclash)
      have hi' : i < done.length := hdone.length_eq ▸ hi
      have hfirst : (done ++ d :: ds)[i]? = some done[i] := by
        rw [List.getElem?_append_left hi', List.getElem?_eq_getElem hi']
      have hexported : upperCamel before[i].name = upperCamel f.name := by
        have := List.find?_some hclash
        simp only [Bool.or_eq_true, beq_iff_eq] at this
        exact this.elim (congrArg upperCamel) id
      exact .clash hi hfirst hhere ((List.forall₂_iff_get.1 hdone).2 i hi' hi) hname hexported
    next =>
      have hdone' := List.rel_append hdone (.cons hname .nil)
      rw [List.append_cons]
      exact faulty_of_ofDeclarations hdone' h

end

end Field

namespace FieldDeclaration

open OperatorScaffold.Field

variable {doc : DocumentLabel} {path here : String} {d : FieldDeclaration} {ds : List FieldDeclaration}
  {f : Field} {e : ParseError}

theorem faulty_of_read (h : ofDeclarations doc path [] ds = .error e) : Faulty doc path ds e := by
  have hfaulty : Faulty doc path ([] ++ ds) e := faulty_of_ofDeclarations .nil h
  exact hfaulty

theorem Fault.not_read (h : d.Fault doc here e) {doc' here' : String} : ofDeclaration doc' here' d ≠ .ok f := by
  intro hread
  obtain ⟨hname, hkind, hobject, -, -, hdefault, -⟩ := ofDeclaration_eq_ok hread
  cases h with
  | nameless hn => cases hn.symm.trans hname
  | typeless ht =>
    rw [kind?, ht] at hkind
    cases hkind
  | unknown _ ht hk =>
    rw [kind?, ht, Option.bind_eq_bind, Option.bind_some, hk] at hkind
    cases hkind
  | nested _ hk hne hfields =>
    obtain rfl := Option.some.inj (hk.symm.trans hkind)
    exact hfields (hobject hne)
  | default _ hk hv haccepts =>
    obtain rfl := Option.some.inj (hk.symm.trans hkind)
    simp [settleDefault, hv, haccepts] at hdefault

theorem Faulty.not_read (h : Faulty doc path ds e) : ∀ {doc' path' fs},
    ofDeclarations doc' path' [] ds ≠ .ok fs := by
  induction h with
  | own hd hfault =>
    intro doc' path' fs hread
    obtain ⟨f, here, -, hf⟩ := exists_read_at hread hd
    exact hfault.not_read hf
  | clash hij hd hd' hn hn' he =>
    intro doc' path' fs hread
    obtain ⟨f, here, hf, hfread⟩ := exists_read_at hread hd
    obtain ⟨f', here', hf', hfread'⟩ := exists_read_at hread hd'
    obtain ⟨hname, -⟩ := ofDeclaration_eq_ok hfread
    obtain ⟨hname', -⟩ := ofDeclaration_eq_ok hfread'
    obtain rfl := Option.some.inj (hn.symm.trans hname)
    obtain rfl := Option.some.inj (hn'.symm.trans hname')
    have hexported := (distinct_of_read hread).exported
    have hmap {i : Nat} {g : Field} (hg : fs[i]? = some g) :
        (fs.map fun g => upperCamel g.name)[i]? = some (upperCamel g.name) := by
      rw [List.getElem?_map, hg]
      rfl
    have hi := (List.getElem?_eq_some_iff.1 (hmap hf)).1
    exact hij.ne ((List.getElem?_inj hi hexported).1 ((hmap hf).trans (he ▸ (hmap hf').symm)))
  | inside hd _ ih =>
    intro doc' path' fs hread
    obtain ⟨f, here, -, hf⟩ := exists_read_at hread hd
    obtain ⟨-, -, -, hinner, -⟩ := ofDeclaration_eq_ok hf
    exact ih hinner

end FieldDeclaration

/-- A list of declarations is read if and only if no fault is in it at any depth, and the error tells one.
Its fields, those inside others among them, are then each what its declaration says. -/
theorem Field.fields_are_normal (doc : DocumentLabel) (path : String) (ds : List FieldDeclaration) :
    (∀ fs, ofDeclarations doc path [] ds = .ok fs → fs.length = ds.length ∧ Distinct fs ∧
      (∀ f : Field, f.Inside fs → ∃ d, Declared d f ds fs) ∧ ∀ d f, Declared d f ds fs → Normal d f) ∧
    (∀ e, ofDeclarations doc path [] ds = .error e → Faulty doc path ds e) ∧
    ((∃ fs, ofDeclarations doc path [] ds = .ok fs) ↔ ¬∃ e, Faulty doc path ds e) := by
  refine ⟨fun fs h => ⟨(forall₂_of_read h).length_eq.symm, distinct_of_read h, fun f hf => exists_declared hf h,
    fun d f hd => ?_⟩, fun e h => FieldDeclaration.faulty_of_read h, ?_, fun h => ?_⟩
  · obtain ⟨here, hread⟩ := hd.read h
    exact normal_of_read hread
  · rintro ⟨fs, hread⟩ ⟨e, hfaulty⟩
    exact hfaulty.not_read hread
  · cases hread : ofDeclarations doc path [] ds with
    | ok fs => exact ⟨fs, rfl⟩
    | error e => exact absurd ⟨e, FieldDeclaration.faulty_of_read hread⟩ h

theorem Field.fields_are_normal_of_an_object_and_of_a_clash_in_one :
    let key : FieldDeclaration := ⟨some "secretName", some "str", none, some true, none, []⟩
    let flag : FieldDeclaration := ⟨some " enabled ", some "Boolean", some (.bool true), none, none, []⟩
    let size (name : String) : FieldDeclaration := ⟨some name, some "int", none, none, none, []⟩
    let tls (inner : List FieldDeclaration) : FieldDeclaration := ⟨some "tls", some "object", none, none, none, inner⟩
    let doc := "w.yaml"
    (∃ fs f ms, ofDeclarations doc "spec.fields" [] [key, tls [key, flag]] = .ok fs ∧
      Declared (tls [key, flag]) f [key, tls [key, flag]] fs ∧ f.default = some (.obj ms) ∧
      ∀ n v, (n, v) ∈ ms ↔ ∃ g ∈ f.fields, g.name = n ∧ g.default = some v) ∧
    Faulty doc "spec.fields" [tls [size "max-size", size "maxSize"]]
      (.invalidValue doc "spec.fields[0].fields[1].name" (.clash "maxSize" "max-size" "MaxSize")) := by
  intro key flag size tls doc
  constructor
  · have hread : (ofDeclarations doc "spec.fields" [] [key, tls [key, flag]]).toOption.isSome := by decide +kernel
    obtain ⟨fs, hfs⟩ := Option.isSome_iff_exists.1 hread
    have hfs := toOption_eq_some.1 hfs
    obtain ⟨hlength, -, -, hnormal⟩ := (fields_are_normal doc "spec.fields" [key, tls [key, flag]]).1 fs hfs
    have hlt : 1 < fs.length := by
      rw [hlength]
      decide
    have hlast : fs[1]? = some fs[1] := List.getElem?_eq_getElem hlt
    have hdeclared : Declared (tls [key, flag]) fs[1] [key, tls [key, flag]] fs := .here (i := 1) rfl hlast
    have hn := hnormal _ _ hdeclared
    have hkind : fs[1].kind = .object := by
      have hobject : (tls [key, flag]).kind? = some .object := by decide +kernel
      exact Option.some.inj (hn.kind.symm.trans hobject)
    have hoptional : ¬fs[1].required := by
      rw [hn.required]
      decide
    obtain ⟨ms, hms, -, hmem⟩ := hn.zero hkind hoptional rfl
    exact ⟨fs, fs[1], ms, hfs, hdeclared, hms, hmem⟩
  · have herror : ofDeclarations doc "spec.fields" [] [tls [size "max-size", size "maxSize"]] =
        .error (.invalidValue doc "spec.fields[0].fields[1].name" (.clash "maxSize" "max-size" "MaxSize")) := by
      rfl
    exact (fields_are_normal doc "spec.fields" _).2.1 _ herror

end OperatorScaffold
