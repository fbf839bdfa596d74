import OperatorScaffold.Proofs.Schema.Types
import OperatorScaffold.Proofs.Template.Quiet
import OperatorScaffold.Template.Go
/-!
The lines of the Go files. No marker line is among them.
-/

namespace OperatorScaffold

open Marker Text Naming

variable {s : String} {f : Field} {fs : List Field}

/-- A type with no comment that is a marker line. -/
structure GoType.Quiet (t : GoType) : Prop where
  capital : Capital t.name
  lined : t.OneLined
  comments : ∀ g ∈ t.fields, ∀ c ∈ g.comments, Unmarked ("\t// " ++ c).toList

namespace Schema

theorem unmarked_goComment (hs : OneLine s) (h : delimiter? ("// " ++ s) = none) :
    Unmarked ("\t// " ++ trimEnd s).toList := by
  have hline : OneLine ("// " ++ s) := oneLine_append.2 ⟨by decide, hs⟩
  have hcomment : Unmarked ("// " ++ s).toList := by
    rw [unmarked_iff_silent hline, Silent, String.ofList_toList]
    exact h
  obtain ⟨bs, hbs, he⟩ := exists_toList_dropEnd isBlank s
  rw [String.toList_append, he, ← List.append_assoc] at hcomment
  have hcut := hcomment.of_append_blanks hbs
  have hfeed : '\n' ∉ "// ".toList ++ (trimEnd s).toList := fun hc =>
    hline (by rw [String.toList_append, he, ← List.append_assoc]; exact List.mem_append_left _ hc)
  have htab : "\t// ".toList = ['\t'] ++ "// ".toList := rfl
  rw [String.toList_append, htab, List.append_assoc, unmarked_iff_silent (by simpa using hfeed),
    silent_blanks_append (List.forall_mem_singleton.2 (by decide))]
  exact (unmarked_iff_silent hfeed).1 hcut

theorem unmarked_comments (h : f.Quiet) : ∀ c ∈ comments f, Unmarked ("\t// " ++ c).toList := by
  refine forall_mem_comments (fun t ht l hl => ?_) (by decide) (by decide) fun d => ?_
  · exact unmarked_goComment (oneLine_of_mem_lines hl) (h.comment t ht l hl)
  · rw [← String.append_assoc]
    exact ((guarded_of_barred (by decide)).append (Json.oneLine_render d)).unmarked

theorem quiet_goTypes (hc : Capital s) (hs : OneLine s) (h : ∀ g : Field, g.Inside fs → g.Quiet) :
    ∀ t ∈ goTypes s fs, t.Quiet := by
  have hlined := oneLined_goTypes hs fun g hg => (h g hg).name
  have hcomments : ∀ t ∈ goTypes s fs, ∀ g ∈ t.fields, ∀ c ∈ g.comments, Unmarked ("\t// " ++ c).toList := by
    have hobject (scope : String) (f : Field) (_ : True) (hf : f.Inside fs) :
        ∀ g ∈ (objectType scope f).fields, ∀ c ∈ g.comments, Unmarked ("\t// " ++ c).toList :=
      List.forall_mem_map.2 fun g hg => unmarked_comments (h g (hf.trans (.here hg)))
    refine List.forall_mem_cons.2 ⟨?_, forall_mem_nestedTypes trivial (fun _ _ h _ => h) hobject⟩
    exact List.forall_mem_map.2 fun g hg => unmarked_comments (h g (.here hg))
  have hcapital : ∀ t ∈ goTypes s fs, Capital t.name := by
    refine List.forall_mem_cons.2 ⟨hc.append _, ?_⟩
    exact forall_mem_nestedTypes hc (fun _ _ hscope _ => hscope.append _) fun _ _ hscope _ => hscope.append _
  exact fun t ht => ⟨hcapital t ht, hlined t ht, hcomments t ht⟩

end Schema

namespace Template

variable {c : Context} {a : Awaited} {t : GoType} {g : GoField} {kind predicate : String}

theorem unmarked_groupVersionLines (h : c.Quiet) : ∀ l ∈ groupVersionLines c, Unmarked l.toList := by
  have hgroup := h.resource.group
  have hversion := h.resource.version.oneLine
  have hfull := h.resource.fullGroup
  simp only [groupVersionLines, List.forall_mem_cons, String.append_assoc, toString_text]
  refine ⟨h.boilerplate, unmarked_blank, unmarked_line ?_ rfl, unmarked_fixed rfl, unmarked_free hfull rfl,
    unmarked_line hversion rfl, unmarked_blank, unmarked_fixed rfl, unmarked_fixed rfl, unmarked_fixed rfl,
    unmarked_fixed rfl, unmarked_blank, unmarked_fixed rfl, unmarked_fixed rfl,
    unmarked_around (guarded_fixed rfl) hfull ?_ rfl, unmarked_blank, unmarked_fixed rfl, unmarked_fixed rfl,
    unmarked_blank, unmarked_fixed rfl, unmarked_fixed rfl, unmarked_fixed rfl, nofun⟩
  all_goals simp only [oneLine_append, hversion, hgroup, true_and]
  · exact ⟨oneLine_fixed rfl, oneLine_fixed rfl, oneLine_fixed rfl⟩
  · exact oneLine_fixed rfl

theorem unmarked_fieldLines (h : g.OneLined) (hc : ∀ c ∈ g.comments, Unmarked ("\t// " ++ c).toList) :
    ∀ l ∈ fieldLines g, Unmarked l.toList := by
  refine List.forall_mem_append.2 ⟨List.forall_mem_map.2 fun s hs => ?_, List.forall_mem_singleton.2 ?_⟩
  · simpa only [toString_text] using hc s hs
  · have hstart : OneLine ("\t" ++ g.name ++ " " ++ g.type) := by
      simp only [oneLine_append, h.name, h.type, and_true]
      exact ⟨oneLine_fixed rfl, oneLine_fixed rfl⟩
    exact (((hstart.stop rfl).append h.jsonTag).append (oneLine_fixed rfl)).unmarked

theorem unmarked_typeLines (h : t.Quiet) : ∀ l ∈ typeLines t, Unmarked l.toList := by
  simp only [typeLines, List.forall_mem_append, List.forall_mem_cons, String.append_assoc, toString_text]
  refine ⟨⟨⟨unmarked_blank, unmarked_comment h.capital h.lined.name ?_, unmarked_line ?_ rfl, nofun⟩,
    List.forall_mem_flatMap.2 fun g hg => unmarked_fieldLines (h.lined.fields g hg) (h.comments g hg)⟩,
    unmarked_fixed rfl, nofun⟩
  · exact oneLine_append.2 ⟨oneLine_fixed rfl, h.lined.doc⟩
  · exact oneLine_append.2 ⟨h.lined.name, oneLine_fixed rfl⟩

theorem unmarked_apiTypesLines (h : c.Quiet) : ∀ l ∈ apiTypesLines c, Unmarked l.toList := by
  have hkind := h.resource.kind.oneLine
  have hcapital := h.resource.kind.capital
  have hplural := h.resource.plural
  have htypes := Schema.quiet_goTypes hcapital hkind h.fields
  simp only [apiTypesLines, List.forall_mem_append, List.forall_mem_cons, String.append_assoc, toString_text]
  refine ⟨⟨⟨h.boilerplate, unmarked_blank, unmarked_line h.resource.version.oneLine rfl, unmarked_blank,
    unmarked_fixed rfl, unmarked_fixed rfl, unmarked_fixed rfl, unmarked_blank, unmarked_fixed rfl,
    unmarked_fixed rfl, nofun⟩, List.forall_mem_flatMap.2 fun t ht => unmarked_typeLines (htypes t ht)⟩,
    unmarked_blank, unmarked_comment hcapital hkind ?_, unmarked_line ?_ rfl, unmarked_fixed rfl,
    unmarked_fixed rfl, unmarked_fixed rfl, unmarked_fixed rfl, unmarked_blank, unmarked_fixed rfl,
    unmarked_fixed rfl, unmarked_line ?_ rfl, unmarked_blank, unmarked_comment hcapital hkind ?_,
    unmarked_line ?_ rfl, unmarked_fixed rfl, unmarked_fixed rfl, unmarked_blank, unmarked_line ?_ rfl,
    unmarked_line ?_ rfl, unmarked_fixed rfl, unmarked_blank, unmarked_fixed rfl, unmarked_blank,
    unmarked_comment hcapital hkind ?_, unmarked_line ?_ rfl, unmarked_fixed rfl, unmarked_fixed rfl,
    unmarked_line ?_ rfl, unmarked_fixed rfl, unmarked_blank, unmarked_fixed rfl, unmarked_line ?_ rfl,
    unmarked_fixed rfl, nofun⟩
  all_goals simp only [oneLine_append, hkind, hplural, Identity.oneLine_scope, true_and, and_true]
  all_goals and_intros
  all_goals exact oneLine_fixed rfl

theorem unmarked_predicateLines (hk : OneLine kind) (hp : UpperCamel predicate) :
    ∀ l ∈ predicateLines kind predicate, Unmarked l.toList := by
  have hpredicate := hp.oneLine
  simp only [predicateLines, List.forall_mem_cons, String.append_assoc, toString_text]
  refine ⟨unmarked_blank, unmarked_comment hp.capital hpredicate ?_, unmarked_line ?_ rfl, unmarked_fixed rfl,
    unmarked_fixed rfl, nofun⟩
  all_goals simp only [oneLine_append, hk, hpredicate, true_and]
  · exact ⟨oneLine_fixed rfl, oneLine_fixed rfl⟩
  · exact oneLine_fixed rfl

theorem unmarked_dependencyLines (h : c.Quiet) : ∀ l ∈ dependencyLines c, Unmarked l.toList := by
  simp only [dependencyLines, List.forall_mem_append, List.forall_mem_cons]
  refine ⟨⟨h.boilerplate, unmarked_blank, unmarked_fixed rfl, unmarked_blank, unmarked_fixed rfl,
    unmarked_fixed rfl, unmarked_blank, unmarked_fixed rfl, unmarked_fixed rfl, unmarked_fixed rfl, nofun⟩,
    ?_⟩
  refine List.forall_mem_flatMap.2 fun p hp => ?_
  exact unmarked_predicateLines h.resource.kind.oneLine (h.predicates p hp)

theorem unmarked_accessLine (h : a.Quiet) : Unmarked (accessLine a).toList := by
  unfold accessLine
  simp only [String.append_assoc, toString_text]
  refine unmarked_around (guarded_fixed rfl) h.fullGroup ?_ rfl
  exact oneLine_append.2 ⟨h.plural, oneLine_fixed rfl⟩

theorem unmarked_waitLines (h : a.Quiet) : ∀ l ∈ waitLines a, Unmarked l.toList := by
  simp only [waitLines, List.forall_mem_cons, String.append_assoc, toString_text]
  refine ⟨unmarked_blank, unmarked_line ?_ rfl, unmarked_line ?_ rfl, unmarked_fixed rfl,
    unmarked_line ?_ rfl, unmarked_fixed rfl, unmarked_fixed rfl, nofun⟩
  all_goals simp only [oneLine_append, h.readiness, h.kind, true_and]
  all_goals exact oneLine_fixed rfl

theorem unmarked_controllerLines (h : c.Quiet) : ∀ l ∈ controllerLines c, Unmarked l.toList := by
  have hkind := h.resource.kind.oneLine
  have hcapital := h.resource.kind.capital
  have hplural := h.resource.plural
  have hgroup := h.resource.group
  have hversion := h.resource.version.oneLine
  have hfull := h.resource.fullGroup
  have hapi := h.resource.oneLine_apiAlias
  have himport : Unmarked ("\t" ++ c.resource.apiAlias ++ " \"" ++ c.repository ++ "/apis/" ++
      c.resource.group ++ "/" ++ c.resource.version ++ "\"").toList := by
    have hstart : OneLine ("\t" ++ c.resource.apiAlias) := oneLine_append.2 ⟨oneLine_fixed rfl, hapi⟩
    have hpath : Guarded ("\t" ++ c.resource.apiAlias ++ " \"" ++ c.repository ++ "/apis/") :=
      ((hstart.stop rfl).append_unmarked h.repository).stop rfl
    have hslash : OneLine "/" := oneLine_fixed rfl
    have hquote : OneLine "\"" := oneLine_fixed rfl
    exact ((((hpath.append hgroup).append hslash).append hversion).append hquote).unmarked
  have hinternal : Unmarked ("\t\"" ++ c.repository ++ "/internal/dependencies\"").toList :=
    ((unmarked_free h.repository rfl).stop rfl).unmarked
  unfold controllerLines
  dsimp only
  simp only [List.forall_mem_append, List.forall_mem_cons, toString_text]
  simp only [String.append_assoc] at himport hinternal ⊢
  refine ⟨⟨⟨⟨⟨⟨⟨⟨⟨h.boilerplate, unmarked_blank, unmarked_line (Identity.oneLine_package _) rfl,
    unmarked_blank, unmarked_fixed rfl, unmarked_fixed rfl, nofun⟩, ?_⟩, unmarked_blank, unmarked_fixed rfl,
    unmarked_fixed rfl, unmarked_fixed rfl, unmarked_fixed rfl, unmarked_blank, himport, nofun⟩, ?_⟩,
    unmarked_fixed rfl, unmarked_blank, unmarked_comment hcapital hkind ?_, unmarked_line ?_ rfl,
    unmarked_fixed rfl, unmarked_fixed rfl, unmarked_fixed rfl, unmarked_blank,
    unmarked_around (guarded_fixed rfl) hfull ?_ rfl, unmarked_around (guarded_fixed rfl) hfull ?_ rfl,
    nofun⟩, List.forall_mem_map.2 fun a ha => unmarked_accessLine (h.dependencies a ha)⟩, unmarked_blank,
    unmarked_line ?_ rfl, unmarked_line ?_ rfl, unmarked_fixed rfl, unmarked_blank, unmarked_line ?_ rfl,
    unmarked_fixed rfl, unmarked_fixed rfl, unmarked_fixed rfl, nofun⟩,
    List.forall_mem_flatMap.2 fun a ha => unmarked_waitLines (h.dependencies a ha)⟩, unmarked_blank,
    unmarked_line ?_ rfl, unmarked_blank, unmarked_fixed rfl, unmarked_fixed rfl, unmarked_fixed rfl,
    unmarked_fixed rfl, unmarked_fixed rfl, unmarked_blank, unmarked_fixed rfl, unmarked_fixed rfl,
    unmarked_fixed rfl, unmarked_blank, unmarked_fixed rfl, unmarked_line ?_ rfl, unmarked_fixed rfl,
    unmarked_line ?_ rfl, unmarked_fixed rfl, unmarked_fixed rfl, nofun⟩
  case refine_1 => exact unmarked_unless (unmarked_fixed rfl)
  case refine_2 => exact unmarked_unless hinternal
  all_goals simp only [oneLine_append, hkind, hplural, hapi, true_and, and_true]
  all_goals and_intros
  all_goals exact oneLine_fixed rfl
end Template

end OperatorScaffold
