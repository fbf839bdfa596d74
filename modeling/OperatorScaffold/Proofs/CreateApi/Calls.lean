import OperatorScaffold.CreateApi
import OperatorScaffold.Proofs.Graph.Agreement
import OperatorScaffold.Proofs.Scaffold.Run
import OperatorScaffold.Proofs.Workload
/-!
Calls of the phases in any order, with any document there at each call: what is scaffolded, by what
was loaded and put in order before.
-/

namespace OperatorScaffold.CreateApi

open scoped List

/-- A call of a phase, in the workspace as it is then. -/
structure Call where
  phase : Phase
  space : Workspace

def after (c : CreateApi) : List Call → CreateApi
  | [] => c
  | k :: ks => (c.runPhase k.space k.phase).2.1.after ks

/-- The phases that were called, and whether they succeeded. -/
def log (c : CreateApi) : List Call → List (Phase × Bool)
  | [] => []
  | k :: ks =>
    (k.phase, (c.runPhase k.space k.phase).1.toBool) :: (c.runPhase k.space k.phase).2.1.log ks

/-- The document that was loaded last has been put in order, and was not refused after that. -/
def Prepared (log : List (Phase × Bool)) : Prop :=
  ∃ before between since, log = before ++ (.injectConfig, true) :: between ++
      (.injectResource, true) :: since ∧
    (.injectConfig, true) ∉ between ++ since ∧ (.injectResource, false) ∉ since

/-- What a call does to the command, by the phase and whether it succeeds. -/
inductive Called (c : CreateApi) : Phase × Bool → CreateApi → Prop
  | still {p : Phase} {b : Bool} : (p, b) ≠ (.injectConfig, true) → (p, b) ≠ (.injectResource, true) →
      Called c (p, b) c
  | loaded {l : Workload} : Called c (.injectConfig, true) { c with workload := some l }
  | refused {l : Workload} {e : ValidationError} : c.workload = some l →
      (l.mapRoot (override c.options)).validate = .error e →
      Called c (.injectResource, false) { c with workload := some (l.mapRoot (override c.options)) }
  | ordered {l : Workload} {rs : List Resource} : c.workload = some l →
      (l.mapRoot (override c.options)).validate = .ok rs →
      Called c (.injectResource, true)
        { c with workload := some (l.mapRoot (override c.options)), order := rs.map (·.name) }
  | reported {report : ScaffoldReport} : Called c (.scaffold, true) { c with report := some report }

variable {c c' : CreateApi} {s s' : Workspace} {l : Workload}

theorem runPhase_injectConfig (h : Workload.parse s c.options.workloadConfig = .ok l) :
    c.runPhase s .injectConfig = (.ok (), { c with workload := some l }, s) := by
  rw [runPhase, injectConfig, h]

theorem runPhase_injectConfig_of_error {e : ParseError}
    (h : Workload.parse s c.options.workloadConfig = .error e) :
    c.runPhase s .injectConfig = (.error (.parse e), c, s) := by
  rw [runPhase, injectConfig, h]

theorem called_runPhase (c : CreateApi) (s : Workspace) (p : Phase) :
    Called c (p, (c.runPhase s p).1.toBool) (c.runPhase s p).2.1 := by
  cases p with
  | injectConfig =>
    simp only [runPhase, injectConfig]
    split
    · exact .still (by simp [Except.toBool]) (by simp)
    · exact .loaded
  | injectResource =>
    simp only [runPhase, injectResource]
    split
    · exact .still (by simp) (by simp [Except.toBool])
    next l hl =>
      split
      next e he => exact .refused hl he
      next rs hrs => exact .ordered hl hrs
  | preScaffold =>
    simp only [runPhase, preScaffold]
    split <;> exact .still (by simp) (by simp)
  | scaffold =>
    simp only [runPhase, scaffold]
    split
    · exact .still (by simp) (by simp)
    · split
      · exact .still (by simp) (by simp)
      · exact .reported
  | postScaffold =>
    simp only [runPhase, postScaffold]
    split
    · exact .still (by simp) (by simp)
    · split
      · exact .still (by simp) (by simp)
      · split <;> exact .still (by simp) (by simp)

theorem Prepared.of_concat {log : List (Phase × Bool)} {x : Phase × Bool} (h : Prepared (log ++ [x])) :
    x = (.injectResource, true) ∨
      Prepared log ∧ x ≠ (.injectConfig, true) ∧ x ≠ (.injectResource, false) := by
  obtain ⟨before, between, since, he, hc, hr⟩ := h
  obtain rfl | ⟨since, y, rfl⟩ := List.eq_nil_or_concat since
  · exact .inl (List.singleton_inj.1 (List.append_inj' he rfl).2)
  · rw [List.concat_eq_append] at he hc hr
    rw [← List.append_assoc, List.mem_append, not_or] at hc
    rw [List.mem_append, not_or] at hr
    rw [← List.cons_append, ← List.append_assoc] at he
    obtain ⟨rfl, hx⟩ := List.append_inj' he rfl
    obtain rfl := List.singleton_inj.1 hx
    exact .inr ⟨⟨before, between, since, rfl, hc.1, hr.1⟩, Ne.symm (List.ne_of_not_mem_cons hc.2),
      Ne.symm (List.ne_of_not_mem_cons hr.2)⟩

/-- What is known of the command from the log of its calls. -/
structure Sound (o : CreateApiOptions) (g : Template.Registry) (log : List (Phase × Bool))
    (c : CreateApi) : Prop where
  options : c.options = o
  registry : c.registry = g
  workload : c.workload = none ↔ (.injectConfig, true) ∉ log
  order : Prepared log → ∃ l rs, c.workload = some l ∧ l.validate = .ok rs ∧ c.order = rs.map (·.name)

variable {o : CreateApiOptions} {g : Template.Registry} {log : List (Phase × Bool)} {x : Phase × Bool}

theorem sound_start : Sound o g [] (start o g) := by
  refine ⟨rfl, rfl, iff_of_true rfl List.not_mem_nil, ?_⟩
  rintro ⟨before, between, since, he, -⟩
  simp at he

theorem Sound.called (hs : Sound o g log c) (h : Called c x c') : Sound o g (log ++ [x]) c' := by
  have mem_concat {y : Phase × Bool} (hy : x ≠ y) : y ∉ log ++ [x] ↔ y ∉ log := by
    simp [hy.symm]
  cases h with
  | still hc hr =>
    refine ⟨hs.options, hs.registry, hs.workload.trans (mem_concat hc).symm, fun hp => ?_⟩
    exact hs.order (hp.of_concat.resolve_left hr).1
  | loaded =>
    refine ⟨hs.options, hs.registry, iff_of_false (by simp) (by simp), fun hp => ?_⟩
    obtain hx | ⟨-, hx, -⟩ := hp.of_concat
    · cases hx
    · exact absurd rfl hx
  | refused hl he =>
    refine ⟨hs.options, hs.registry, ?_, fun hp => ?_⟩
    · rw [mem_concat (by simp), ← hs.workload]
      simp [hl]
    · obtain hx | ⟨-, -, hx⟩ := hp.of_concat
      · cases hx
      · exact absurd rfl hx
  | ordered hl hrs =>
    refine ⟨hs.options, hs.registry, ?_, fun _ => ⟨_, _, rfl, hrs, rfl⟩⟩
    rw [mem_concat (by simp), ← hs.workload]
    simp [hl]
  | reported =>
    refine ⟨hs.options, hs.registry, hs.workload.trans (mem_concat (by simp)).symm, fun hp => ?_⟩
    exact hs.order (hp.of_concat.resolve_left (by simp)).1

theorem Sound.after (hs : Sound o g log c) (calls : List Call) :
    Sound o g (log ++ c.log calls) (c.after calls) := by
  induction calls generalizing log c with
  | nil => rwa [CreateApi.log, List.append_nil]
  | cons k ks ih =>
    have := ih (hs.called (called_runPhase c k.space k.phase))
    rwa [List.append_assoc] at this

theorem Called.order_eq (h : Called c x c') (hx : x ≠ (.injectResource, true)) : c'.order = c.order := by
  cases h with
  | still => rfl
  | loaded => rfl
  | refused => rfl
  | ordered => exact absurd rfl hx
  | reported => rfl

/-- The order stays as long as no other is found. -/
theorem order_after {calls : List Call} (h : (.injectResource, true) ∉ c.log calls) :
    (c.after calls).order = c.order := by
  induction calls generalizing c with
  | nil => rfl
  | cons k ks ih =>
    obtain ⟨hk, hks⟩ := not_or.1 (List.mem_cons.not.1 h)
    rw [after, ih hks]
    exact (called_runPhase c k.space k.phase).order_eq (Ne.symm hk)

theorem after_append (earlier later : List Call) :
    c.after (earlier ++ later) = (c.after earlier).after later := by
  induction earlier generalizing c with
  | nil => rfl
  | cons k ks ih => exact ih

/-- The phase emits these resources of a workload, in this order. -/
structure Emits (c : CreateApi) (l : Workload) (order : List Resource) (s : Workspace) : Prop where
  run : c.runPhase s .scaffold = match l.scaffold order c.registry c.options.scaffold s with
    | (.error e, s') => (.error e, c, s')
    | (.ok report, s') => (.ok (), { c with report := some report }, s')
  records : ∀ report s', l.scaffold order c.registry c.options.scaffold s = (.ok report, s') →
    report.records.map (fun r => (r.resource, r.kind)) =
      (Workload.plan c.options.scaffold.scope [] order).map fun x => (x.1.name, x.2)

theorem emits_of_workload (hl : c.workload = some l) :
    c.Emits l (c.order.filterMap l.resource?) s := by
  refine ⟨?_, fun report s' h => Workload.records_of_scaffold h⟩
  have ho : c.ordered .scaffold = .ok (l, c.order.filterMap l.resource?) := by
    unfold ordered
    rw [hl]
  unfold runPhase scaffold
  rewrite [ho]
  rfl

/-- What scaffolding comes to, whatever was called before. It is refused as long as no document was
loaded, and then changes nothing. A document that was put in order since it was loaded is emitted
completely, in its order. Else the names of the order before are looked up in it, if there is one: a
document that was loaded but not put in order is accepted all the same. -/
theorem scaffold_after_calls (o : CreateApiOptions) (g : Template.Registry) (calls : List Call)
    (s : Workspace) :
    let c := (start o g).after calls
    let log := (start o g).log calls
    c.options = o ∧ c.registry = g ∧
    ((.injectConfig, true) ∉ log →
      c.runPhase s .scaffold = (.error (.phaseOrder .scaffold), c, s)) ∧
    (Prepared log → ∃ l order, c.workload = some l ∧ l.validate = .ok order ∧
      order ~ l.resources ∧ c.Emits l order s) ∧
    ∀ earlier later, calls = earlier ++ later → (.injectConfig, true) ∈ log →
      (.injectResource, true) ∉ ((start o g).after earlier).log later →
      ∃ l, c.workload = some l ∧
        c.Emits l (((start o g).after earlier).order.filterMap l.resource?) s := by
  intro c log
  have hs : Sound o g log c := sound_start.after calls
  refine ⟨hs.options, hs.registry, fun hlog => ?_, fun hp => ?_, fun earlier later hcalls hlog hlater => ?_⟩
  · have hw := hs.workload.2 hlog
    simp only [runPhase, scaffold, CreateApi.ordered, hw]
  · obtain ⟨l, order, hl, hv, ho⟩ := hs.order hp
    have he := emits_of_workload (s := s) hl
    rw [ho, Workload.filterMap_resource? hv] at he
    exact ⟨l, order, hl, hv, Workload.perm_of_validate hv, he⟩
  · cases hl : c.workload with
    | none => exact absurd hlog (hs.workload.1 hl)
    | some l =>
      have he := emits_of_workload (s := s) hl
      have ho : c.order = ((start o g).after earlier).order := by
        rw [← order_after hlater, ← after_append, ← hcalls]
      rw [ho] at he
      exact ⟨l, rfl, he⟩

theorem scaffold_after_calls_of_one_in_order_and_one_only_loaded :
    let text := "\x7b\"apiVersion\": \"opforge.dev/v1alpha1\", \"kind\": \"StandaloneWorkload\", \"name\": \"widget\",
      \"spec\": \x7b\"repository\": \"r\",
        \"api\": \x7b\"group\": \"apps\", \"version\": \"v1\", \"kind\": \"Widget\"\x7d\x7d\x7d"
    let s : Workspace := ⟨⟨[(["w.json"], .file (.text text) 0o644)]⟩, [], []⟩
    let o : CreateApiOptions :=
      ⟨⟨"w.json"⟩, ⟨⟨"out"⟩, ⟨false, false⟩, .none, none⟩, ⟨false, false, ⟨"gen"⟩, none⟩, none, none⟩
    (∃ l order, ((start o ⟨[]⟩).after [⟨.injectConfig, s⟩, ⟨.injectResource, s⟩]).workload = some l ∧
      l.validate = .ok order ∧
      ((start o ⟨[]⟩).after [⟨.injectConfig, s⟩, ⟨.injectResource, s⟩]).Emits l order s) ∧
      ∃ l, ((start o ⟨[]⟩).after [⟨.injectConfig, s⟩]).workload = some l ∧
        ((start o ⟨[]⟩).after [⟨.injectConfig, s⟩]).Emits l [] s := by
  intro text s o
  have hready : (start o ⟨[]⟩).log [⟨.injectConfig, s⟩, ⟨.injectResource, s⟩] =
      [(.injectConfig, true), (.injectResource, true)] := by
    have hrun : ((Workload.ofText? "/w.json" text).bind Except.toOption).any fun l =>
        ({ start o ⟨[]⟩ with workload := some l }.injectResource s).1.toBool := by
      set_option maxRecDepth 2000 in
      have htext : text.toList = _ := String.toList_ofList
      rw [Workload.ofText?, Json.read, htext]
      decide +kernel
    have hhere : s.canonical ⟨"w.json"⟩ = .ok ⟨"/w.json"⟩ := rfl
    obtain ⟨l, hl, hrun⟩ := Workload.exists_parse_of_any hhere rfl (by decide) hrun
    rw [log, log, log, runPhase_injectConfig hl]
    exact congrArg (fun b => [(Phase.injectConfig, true), (Phase.injectResource, b)]) hrun
  have hloaded : (start o ⟨[]⟩).log [⟨.injectConfig, s⟩] = [(.injectConfig, true)] :=
    congrArg ([·]) (List.cons.inj hready).1
  constructor
  · obtain ⟨-, -, -, hordered, -⟩ := scaffold_after_calls o ⟨[]⟩ _ s
    obtain ⟨l, order, hl, hv, -, he⟩ := hordered (by rw [hready]; exact ⟨[], [], [], rfl, List.not_mem_nil, List.not_mem_nil⟩)
    exact ⟨l, order, hl, hv, he⟩
  · obtain ⟨-, -, -, -, hunordered⟩ := scaffold_after_calls o ⟨[]⟩ [⟨.injectConfig, s⟩] s
    exact hunordered [] _ rfl (hloaded ▸ .head _) (hloaded ▸ by decide)

end OperatorScaffold.CreateApi
