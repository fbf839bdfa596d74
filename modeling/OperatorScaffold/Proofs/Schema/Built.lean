import Mathlib.Data.List.Nodup
import OperatorScaffold.Proofs.Workload
/-!
What is known of fields that come from declarations, at any depth.
-/

namespace OperatorScaffold

namespace Field

variable {f g : Field} {fs before : List Field} {d : Json} {doc : DocumentLabel} {path : String}

/-- A field without a default is required, a default is of the kind of its field, and no two fields of
an object have one name. -/
inductive Built : Field → Prop
  | mk {name : String} {kind : FieldKind} {default : Option Json} {required : Bool}
      {description : Option String} {inner : List Field} :
      (∀ d, default = some d → kind.accepts d) → (default = none → required) →
      (inner.map (·.name)).Nodup → (∀ g ∈ inner, Built g) →
      Built (.mk name kind default required description inner)

theorem Built.accepts (h : f.Built) (hd : f.default = some d) : f.kind.accepts d := by
  cases h with
  | mk ha => exact ha d hd

theorem Built.required (h : f.Built) (hd : f.default = none) : f.required := by
  cases h with
  | mk _ hr => exact hr hd

theorem Built.nodup (h : f.Built) : (f.fields.map (·.name)).Nodup := by
  cases h with
  | mk _ _ hn => exact hn

theorem Built.inner (h : f.Built) : ∀ g ∈ f.fields, g.Built := by
  cases h with
  | mk _ _ _ hi => exact hi

theorem accepts_zeroValue (kind : FieldKind) (inner : List Field) : kind.accepts (zeroValue kind inner) := by
  cases kind <;> rfl

theorem settleDefault_eq_ok {name : String} {kind : FieldKind} {required : Bool} {inner : List Field}
    {declared default : Option Json} (h : settleDefault doc name kind required inner declared = .ok default) :
    (∀ d, default = some d → kind.accepts d) ∧ (default = none → required) := by
  unfold settleDefault at h
  split at h
  next v =>
    split at h
    next hv =>
      cases h
      exact ⟨fun d hd => Option.some.inj hd ▸ hv, nofun⟩
    next => cases h
  next =>
    cases h
    split
    next hr => exact ⟨nofun, fun _ => hr⟩
    next => exact ⟨fun d hd => Option.some.inj hd ▸ accepts_zeroValue _ _, nofun⟩

theorem name_not_mem_of_clashing? (h : clashing? before f = none) : f.name ∉ before.map (·.name) := by
  intro hmem
  obtain ⟨g, hg, he⟩ := List.mem_map.1 hmem
  have := List.find?_eq_none.1 h g hg
  simp [he] at this

mutual

theorem built_ofDeclaration : ∀ {d : FieldDeclaration} {path : String} {f : Field},
    ofDeclaration doc path d = .ok f → f.Built
  | ⟨name, type, default, required, description, inner⟩, path, f, h => by
    rw [ofDeclaration] at h
    obtain ⟨name, -, h⟩ := bind_eq_ok.1 h
    obtain ⟨declared, -, h⟩ := bind_eq_ok.1 h
    split at h
    next => cases h
    next kind _ =>
      obtain ⟨-, h⟩ := guard_eq_ok.1 h
      obtain ⟨fields, hfields, h⟩ := bind_eq_ok.1 h
      obtain ⟨default, hdefault, h⟩ := bind_eq_ok.1 h
      cases h
      obtain ⟨hn, hbuilt⟩ := built_ofDeclarations hfields .nil nofun
      obtain ⟨ha, hr⟩ := settleDefault_eq_ok hdefault
      exact .mk ha hr hn hbuilt

theorem built_ofDeclarations : ∀ {ds : List FieldDeclaration} {path : String} {before fs : List Field},
    ofDeclarations doc path before ds = .ok fs → (before.map (·.name)).Nodup → (∀ g ∈ before, g.Built) →
    (fs.map (·.name)).Nodup ∧ ∀ g ∈ fs, g.Built
  | [], path, before, fs, h, hn, hb => by
    rw [ofDeclarations] at h
    cases h
    exact ⟨hn, hb⟩
  | d :: ds, path, before, fs, h, hn, hb => by
    rw [ofDeclarations] at h
    obtain ⟨f, hf, h⟩ := bind_eq_ok.1 h
    split at h
    next => cases h
    next hclash =>
      have hbuilt := built_ofDeclaration hf
      refine built_ofDeclarations h ?_ (List.forall_mem_append.2 ⟨hb, by simpa using hbuilt⟩)
      rw [List.map_append, List.nodup_append]
      refine ⟨hn, List.nodup_singleton _, fun a ha b hb' he => ?_⟩
      rw [List.map_singleton, List.mem_singleton] at hb'
      exact name_not_mem_of_clashing? hclash (hb' ▸ he ▸ ha)

end

end Field

namespace Workload

variable {w : Workload} {space : Workspace} {r : Resource} {options : WorkloadOptions}
  {ds : List PendingDependency}

theorem built_of_parse {path : Path} (h : parse space path = .ok w) (hr : r ∈ w.resources) :
    (r.fields.map (·.name)).Nodup ∧ ∀ f ∈ r.fields, f.Built := by
  obtain ⟨ds, hd⟩ := described_of_mem h hr
  obtain ⟨doc, -, spec, hfields, -, -⟩ := hd.read
  exact Field.built_ofDeclarations hfields .nil nofun

end Workload

end OperatorScaffold
