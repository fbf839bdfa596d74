import OperatorScaffold.Project.Record
import OperatorScaffold.Proofs.Project.Upsert
/-!
Recording a workload in a project that has it already changes nothing.
-/

namespace OperatorScaffold

namespace Yaml.Value

mutual

theorem same_refl : ∀ v : Value, same v v
  | .null => rfl
  | .bool b => by simp [same]
  | .int n => by simp [same]
  | .float x => by simp [same]
  | .infinite b => by simp [same]
  | .notANumber => rfl
  | .str s => by simp [same]
  | .list vs => by simp [same, sameItems_refl vs]
  | .record es => by simp [same, sameEntries_refl es]
  | .tagged t v => by simp [same, same_refl v]

theorem sameItems_refl : ∀ vs : List Value, sameItems vs vs
  | [] => rfl
  | v :: vs => by simp [sameItems, same_refl v, sameItems_refl vs]

theorem sameEntries_refl : ∀ es : List (Value × Value), sameEntries es es
  | [] => rfl
  | (k, v) :: es => by simp [sameEntries, same_refl k, same_refl v, sameEntries_refl es]

end

end Yaml.Value

theorem Json.insertMember_insertMember {α : Type} (name : String) (value : α) (ms : List (String × α)) :
    insertMember name value (insertMember name value ms) = insertMember name value ms := by
  induction ms with
  | nil => simp [insertMember]
  | cons m ms ih =>
    obtain ⟨n, v⟩ := m
    by_cases hlt : name < n
    · simp [insertMember, hlt]
    · by_cases he : name = n
      · simp [insertMember, he]
      · simp [insertMember, hlt, he, ih]

namespace ProjectFile

open Json

theorem sameTable_refl (es : List (String × Yaml.Value)) : sameTable es es := by
  induction es with
  | nil => rfl
  | cons e es ih => simp [sameTable, Yaml.Value.same_refl, ih]

/-- A table that agrees with one in which an entry was put does not change when it is put in again. -/
theorem sameTable_insertMember {name : String} {value : Yaml.Value} {es fs : List (String × Yaml.Value)}
    (h : sameTable es fs) (hf : insertMember name value fs = fs) :
    sameTable es (insertMember name value es) := by
  induction es generalizing fs with
  | nil =>
    cases fs with
    | nil => cases hf
    | cons => cases h
  | cons e es ih =>
    cases fs with
    | nil => cases h
    | cons f fs =>
      obtain ⟨n, v⟩ := e
      obtain ⟨m, u⟩ := f
      simp only [sameTable, Bool.and_eq_true, decide_eq_true_eq] at h
      obtain ⟨⟨rfl, hv⟩, hes⟩ := h
      rw [insertMember] at hf ⊢
      split at hf
      next =>
        have := congrArg List.length hf
        simp at this
      next hlt =>
        rw [if_neg hlt]
        split at hf
        next he =>
          obtain ⟨hu, -⟩ := List.cons.inj hf
          obtain ⟨rfl, rfl⟩ := Prod.mk.inj hu
          simp [sameTable, hv, sameTable_refl]
        next he =>
          rw [if_neg he]
          simp [sameTable, Yaml.Value.same_refl, ih hes (List.cons.inj hf).2]

theorem same_iff {p q : ProjectFile} : p.same q ↔ p.domain = q.domain ∧ p.layout = q.layout ∧
    sameTable p.plugins q.plugins ∧ p.projectName = q.projectName ∧ p.repo = q.repo ∧
    p.resources = q.resources ∧ p.version = q.version ∧ sameTable p.extra q.extra := by
  simp [same, and_assoc]

theorem same_refl (p : ProjectFile) : p.same p := by
  simp [same_iff, sameTable_refl]

/-- What recording a workload says of the project as a whole. -/
def settle (p : ProjectFile) (w : Workload) (configPath : String) : ProjectFile :=
  { p with
    repo := w.repository
    domain := p.domain <|> w.options.domain
    version := if p.version = "" then defaultVersion else p.version
    projectName := p.projectName <|> some w.name
    layout := if p.layout.contains pluginKey then p.layout else p.layout ++ [pluginKey]
    plugins := insertMember pluginKey (pluginConfig configPath) p.plugins }

variable {p q : ProjectFile} {w : Workload} {order : List Resource} {controllers : Bool}
  {configPath : String}

theorem record_eq : p.record w order controllers configPath =
    (order.map (resourceEntry w controllers)).foldl upsert (p.settle w configPath) := rfl

theorem foldl_upsert_eq (es : List ProjectResource) :
    es.foldl upsert p = { p with resources := (es.foldl upsert p).resources } := by
  induction es generalizing p with
  | nil => rfl
  | cons e es ih =>
    rw [List.foldl_cons, ih]
    rfl

theorem version_record : (p.record w order controllers configPath).version =
    if p.version = "" then defaultVersion else p.version := by
  rw [record_eq, foldl_upsert_eq]
  rfl

theorem orElse_orElse_self {α : Type} (a b : Option α) : ((a <|> b) <|> b) = (a <|> b) := by
  cases a <;> cases b <;> rfl

/-- What is said of the project as a whole is the same when it is said again. -/
theorem same_settle {rs : List ProjectResource}
    (h : q.same { p.settle w configPath with resources := rs }) : q.same (q.settle w configPath) := by
  obtain ⟨hdomain, hlayout, hplugins, hname, hrepo, -, hversion, -⟩ := same_iff.1 h
  rw [same_iff]
  refine ⟨?_, ?_, ?_, ?_, hrepo, rfl, ?_, sameTable_refl _⟩
  · change q.domain = (q.domain <|> w.options.domain)
    rw [hdomain]
    exact (orElse_orElse_self _ _).symm
  · have hin : q.layout.contains pluginKey := by
      rw [hlayout, settle]
      dsimp only
      split
      next hc => exact hc
      next => simp
    change q.layout = if q.layout.contains pluginKey then q.layout else _
    rw [if_pos hin]
  · exact sameTable_insertMember hplugins (insertMember_insertMember _ _ _)
  · change q.projectName = (q.projectName <|> some w.name)
    rw [hname]
    exact (orElse_orElse_self _ _).symm
  · have hne : q.version ≠ "" := by
      rw [hversion, settle]
      dsimp only
      split
      next => decide
      next hv => exact hv
    change q.version = if q.version = "" then defaultVersion else q.version
    rw [if_neg hne]

/-- Recording a workload again in what is as it was recorded changes nothing. -/
theorem same_record (hn : (order.map (·.gvk)).Nodup)
    (h : q.same (p.record w order controllers configPath)) :
    q.same (q.record w order controllers configPath) := by
  rw [record_eq] at h ⊢
  have hes : ((order.map (resourceEntry w controllers)).map (·.gvk)).Nodup := by
    rw [List.map_map]
    exact hn
  generalize order.map (resourceEntry w controllers) = es at h hes ⊢
  rw [foldl_upsert_eq] at h
  obtain ⟨-, -, -, -, -, hresources, -⟩ := same_iff.1 h
  have hfold : es.foldl upsert (q.settle w configPath) = q.settle w configPath := by
    by_cases hnil : es = []
    · rw [hnil, List.foldl_nil]
    -- Each entry stands where it is put again, as the entries are sorted and have keys of their own.
    · have he : (q.settle w configPath).resources = (es.foldl upsert (p.settle w configPath)).resources :=
        hresources
      apply foldl_upsert_of_recorded
      · rw [he]
        exact forall_recorded_foldl_upsert hes
      · rw [he]
        exact sorted_foldl_upsert hnil
  rw [hfold]
  exact same_settle h

theorem keys_entries : keys (order.map (resourceEntry w controllers)) = order.map (·.gvk) := by
  rw [keys, List.map_map]
  rfl

theorem nodup_keys_record (h : (keys p.resources).Nodup) :
    (keys (p.record w order controllers configPath).resources).Nodup := by
  rw [record_eq]
  exact nodup_keys_foldl_upsert h

theorem mem_keys_record {key : GVK} : key ∈ keys (p.record w order controllers configPath).resources ↔
    key ∈ keys p.resources ∨ key ∈ order.map (·.gvk) := by
  rw [record_eq, mem_keys_foldl_upsert, keys_entries]
  rfl

/-- Recording a workload records a controller for each of its resources, or for none. -/
theorem controls_record {key : GVK} : controls (p.record w order controllers configPath).resources key ↔
    controls p.resources key ∨ controllers ∧ key ∈ order.map (·.gvk) := by
  rw [record_eq, controls_foldl_upsert]
  refine or_congr_right ⟨?_, ?_⟩
  · rintro ⟨e, he, rfl, hc⟩
    obtain ⟨r, hr, rfl⟩ := List.mem_map.1 he
    exact ⟨hc, List.mem_map.2 ⟨r, hr, rfl⟩⟩
  · rintro ⟨hc, hkey⟩
    obtain ⟨r, hr, rfl⟩ := List.mem_map.1 hkey
    exact ⟨_, List.mem_map_of_mem hr, rfl, hc⟩

end ProjectFile

end OperatorScaffold
