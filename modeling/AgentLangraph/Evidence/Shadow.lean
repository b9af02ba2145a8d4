import AgentLangraph.Evidence.Admission

/-! What the shadow evaluation leaves of the candidates. The hard gate reads as the relevance of a candidate the
    total that the pass before it has written, and writes over its scores and its verdict. -/

namespace AgentLangraph.Evidence
open PyText PyFloat Knowledge

/-! ### Lists of objects -/

section
variable {α : Type*}

theorem length_withNovelty (cands : List (CandidateEvidence α)) : ∀ seen : List Text,
    (withNovelty seen cands).length = cands.length := by
  induction cands with
  | nil => exact fun _ => rfl
  | cons c cands ih => exact fun seen => congrArg (· + 1) (ih _)

/-- Objects that are all admitted are seen. -/
theorem admittedObjects_eq_iff {admitted : List ℕ} {l l' : List (CandidateEvidence α)}
    (hperm : admitted.Perm (List.range l.length)) (hlength : l'.length = l.length) :
    admitted.filterMap (fun i => l'[i]?) = admitted.filterMap (fun i => l[i]?) ↔ l' = l := by
  constructor
  · intro h
    have hsome : ∀ is : List ℕ, (∀ i ∈ is, i < l.length) →
        is.filterMap (fun i => l'[i]?) = is.filterMap (fun i => l[i]?) → ∀ i ∈ is, l'[i]? = l[i]? := by
      intro is
      induction is with
      | nil => exact fun _ _ i hi => nomatch hi
      | cons j is ih =>
        intro hlt heq
        rw [List.forall_mem_cons] at hlt
        rw [List.filterMap_cons_some (List.getElem?_eq_getElem (hlength ▸ hlt.1)),
          List.filterMap_cons_some (List.getElem?_eq_getElem hlt.1), List.cons.injEq] at heq
        rw [List.forall_mem_cons]
        refine ⟨?_, ih hlt.2 heq.2⟩
        rw [List.getElem?_eq_getElem (hlength ▸ hlt.1), List.getElem?_eq_getElem hlt.1, heq.1]
    refine List.ext_getElem? fun i => ?_
    by_cases hi : i < l.length
    · exact hsome admitted (fun i hi => List.mem_range.1 (hperm.subset hi)) h i
        (hperm.symm.subset (List.mem_range.2 hi))
    · rw [List.getElem?_eq_none (Nat.le_of_not_lt hi), List.getElem?_eq_none (hlength ▸ Nat.le_of_not_lt hi)]
  · intro h
    rw [h]

end

section
variable {α : Type*} [PyFloat α]

/-- With the shadow evaluation and without it the same candidates come out of the gate, and the same hits. -/
structure OnlyObserves (cfg : Admission α) (query : QueryObject) (decision : RetrievalDecision)
    (cands : List (CandidateEvidence α)) : Prop where
  admitted : (applyAdmissionGate { cfg with shadowEnabled := true } query decision cands).admittedObjects =
    (applyAdmissionGate { cfg with shadowEnabled := false } query decision cands).admittedObjects
  hits : ∀ packets,
    packetsToHits packets
        (applyAdmissionGate { cfg with shadowEnabled := true } query decision cands).admittedObjects =
      packetsToHits packets
        (applyAdmissionGate { cfg with shadowEnabled := false } query decision cands).admittedObjects

/-- The gate lets the candidate through, and its weighted total is its relevance, or zero. -/
def Settled (cfg : Admission α) (query : QueryObject) (decision : RetrievalDecision) (new : Bool)
    (c : CandidateEvidence α) : Prop :=
  (totalOf cfg query (scoreOf c) new c = 0 ∨ totalOf cfg query (scoreOf c) new c = scoreOf c) ∧
    reasonOf cfg query decision (scoreOf c) c = []

instance (cfg : Admission α) (query : QueryObject) (decision : RetrievalDecision) (new : Bool)
    (c : CandidateEvidence α) : Decidable (Settled cfg query decision new c) := inferInstanceAs (Decidable (_ ∧ _))

variable {cfg : Admission α} {query : QueryObject} {decision : RetrievalDecision}

/-! ### A candidate that is judged twice -/

/-- A candidate of no relevance has no score at all. -/
theorem scores_of_zero {c : CandidateEvidence α} (h : scoreOf c = 0) :
    c.scoreBreakdown.dense = 0 ∧ c.scoreBreakdown.rrf = 0 := by
  obtain ⟨-, hrest⟩ := orElse_eq_zero.1 h
  obtain ⟨-, hrest⟩ := orElse_eq_zero.1 hrest
  obtain ⟨hscore, hrrf⟩ := orElse_eq_zero.1 hrest
  exact ⟨(orElse_eq_zero.1 hscore).1, hrrf⟩

/-- What is read as the relevance of a candidate that has been judged. -/
theorem scoreOf_judge (mode : Text) (new : Bool) (c : CandidateEvidence α) :
    scoreOf (judge cfg query decision mode new c) = scoreOf c ↔
      totalOf cfg query (scoreOf c) new c = 0 ∨ totalOf cfg query (scoreOf c) new c = scoreOf c := by
  have hread : scoreOf (judge cfg query decision mode new c) =
      orElse (totalOf cfg query (scoreOf c) new c) (orElse (scoreOf c)
        (orElse (orElse c.scoreBreakdown.dense (totalOf cfg query (scoreOf c) new c)) c.scoreBreakdown.rrf)) := rfl
  rw [hread]
  by_cases htotal : totalOf cfg query (scoreOf c) new c = 0
  · rw [htotal, orElse_zero_left, orElse_zero_right]
    refine iff_of_true ?_ (Or.inl rfl)
    by_cases hscore : scoreOf c = 0
    · obtain ⟨hdense, hrrf⟩ := scores_of_zero hscore
      rw [hscore, hdense, hrrf, orElse_zero_left, orElse_zero_left]
    · exact orElse_of_ne hscore _
  · rw [orElse_of_ne htotal, or_iff_right htotal]

theorem relevancePassed_judge (mode : Text) (new : Bool) (c : CandidateEvidence α) :
    (judge cfg query decision mode new c).relevancePassed =
      decide (reasonOf cfg query decision (scoreOf c) c = [] ∨ mode ≠ "hard".toList) := rfl

theorem filterReason_judge (mode : Text) (new : Bool) (c : CandidateEvidence α) :
    (judge cfg query decision mode new c).filterReason =
      if reasonOf cfg query decision (scoreOf c) c ≠ [] then reasonOf cfg query decision (scoreOf c) c
      else if c.filterReason ≠ [] then c.filterReason else "admitted".toList := rfl

theorem filterReason_judge_ne_nil (mode : Text) (new : Bool) (c : CandidateEvidence α) :
    (judge cfg query decision mode new c).filterReason ≠ [] := by
  rw [filterReason_judge]
  split_ifs with h h'
  · exact h
  · exact h'
  · decide

/-- Neither the terms nor the age of a candidate change when it is judged. -/
theorem reasonOf_judge (mode : Text) (new : Bool) (score : α) (c : CandidateEvidence α) :
    reasonOf cfg query decision score (judge cfg query decision mode new c) =
      reasonOf cfg query decision score c := rfl

/-- The hard gate leaves a candidate as the soft one has left it exactly when it is settled. -/
theorem judge_judge_iff {mode : Text} (hsoft : mode ≠ "hard".toList) (new : Bool) (c : CandidateEvidence α) :
    judge cfg query decision "hard".toList new (judge cfg query decision mode new c) =
        judge cfg query decision mode new c ↔ Settled cfg query decision new c := by
  have hpassed : (judge cfg query decision mode new c).relevancePassed = true := by
    rw [relevancePassed_judge]
    exact decide_eq_true (Or.inr hsoft)
  constructor
  · intro h
    have hscore : scoreOf (judge cfg query decision mode new c) = scoreOf c :=
      congrArg (fun c => c.scoreBreakdown.rerank) h
    refine ⟨(scoreOf_judge mode new c).1 hscore, ?_⟩
    have hagain := (congrArg CandidateEvidence.relevancePassed h).trans hpassed
    rw [relevancePassed_judge, decide_eq_true_eq, hscore, reasonOf_judge] at hagain
    exact hagain.resolve_right (not_not.2 rfl)
  · rintro ⟨htotal, hnone⟩
    have hscore : scoreOf (judge cfg query decision mode new c) = scoreOf c := (scoreOf_judge mode new c).2 htotal
    have hkept : reasonOf cfg query decision (scoreOf (judge cfg query decision mode new c))
        (judge cfg query decision mode new c) = [] := by rw [hscore, reasonOf_judge, hnone]
    refine CandidateEvidence.ext rfl rfl rfl rfl rfl rfl rfl ?_ ?_ ?_ rfl rfl
    · have htotal' : totalOf cfg query (scoreOf (judge cfg query decision mode new c)) new
          (judge cfg query decision mode new c) = totalOf cfg query (scoreOf c) new c := by
        rw [hscore]
        rfl
      exact ScoreBreakdown.ext rfl rfl rfl hscore rfl rfl rfl htotal'
    · rw [relevancePassed_judge, hpassed]
      exact decide_eq_true (Or.inl hkept)
    · rw [filterReason_judge, hkept, if_neg (not_not.2 rfl), if_pos (filterReason_judge_ne_nil mode new c)]

/-! ### The objects after the two passes -/

/-- Judging keeps the sources, and so which of them are new. -/
theorem withNovelty_judge (mode : Text) (cands : List (CandidateEvidence α)) : ∀ seen : List Text,
    withNovelty seen ((withNovelty seen cands).map fun p => judge cfg query decision mode p.2 p.1) =
      (withNovelty seen cands).map fun p => (judge cfg query decision mode p.2 p.1, p.2) := by
  induction cands with
  | nil => exact fun _ => rfl
  | cons c cands ih =>
    intro seen
    rw [withNovelty, List.map_cons, List.map_cons, withNovelty]
    exact congrArg₂ List.cons rfl (ih (c.sourceId :: seen))

theorem judgeAll_judgeAll (mode : Text) (cands : List (CandidateEvidence α)) :
    judgeAll cfg query decision "hard".toList (judgeAll cfg query decision mode cands) =
      (withNovelty [] cands).map fun p =>
        judge cfg query decision "hard".toList p.2 (judge cfg query decision mode p.2 p.1) := by
  rw [judgeAll, judgeAll, withNovelty_judge, List.map_map]
  rfl

theorem length_judgeAll (mode : Text) (cands : List (CandidateEvidence α)) :
    (judgeAll cfg query decision mode cands).length = cands.length := by
  rw [judgeAll, List.length_map, length_withNovelty]

theorem judgeAll_judgeAll_iff {mode : Text} (hsoft : mode ≠ "hard".toList) (cands : List (CandidateEvidence α)) :
    judgeAll cfg query decision "hard".toList (judgeAll cfg query decision mode cands) =
        judgeAll cfg query decision mode cands ↔
      ∀ p ∈ withNovelty [] cands, Settled cfg query decision p.2 p.1 := by
  rw [judgeAll_judgeAll, judgeAll, List.map_inj_left]
  exact forall₂_congr fun p _ => judge_judge_iff hsoft p.2 p.1

/-- In soft mode a pass admits every candidate. -/
theorem admitted_of_soft {mode : Text} (hsoft : mode ≠ "hard".toList) (cands : List (CandidateEvidence α)) :
    (admissionPass cfg query decision mode cands).objects = judgeAll cfg query decision mode cands ∧
      (admissionPass cfg query decision mode cands).admitted.Perm (List.range cands.length) := by
  have hall : (List.range cands.length).filter
      (fun i => (cands[i]?.map (admits cfg query decision mode)).getD false) = List.range cands.length := by
    rw [List.filter_eq_self]
    intro i hi
    rw [List.getElem?_eq_getElem (List.mem_range.1 hi), Option.map_some, Option.getD_some, admits]
    exact decide_eq_true (Or.inr hsoft)
  rw [admissionPass]
  dsimp only
  rw [if_neg hsoft, hall]
  split_ifs with hnone
  · have hzero : cands = [] := by simpa using hnone.1
    subst hzero
    exact absurd rfl hnone.2
  · exact ⟨rfl, perm_sortDesc _ _⟩

theorem objects_hard (cands : List (CandidateEvidence α)) :
    (admissionPass cfg query decision "hard".toList cands).objects =
      judgeAll cfg query decision "hard".toList cands := by
  rw [admissionPass]
  dsimp only
  rw [if_pos rfl]

/-- The shadow evaluation only observes exactly when the gate is off or every candidate is settled. -/
theorem only_observes_iff (cfg : Admission α) (query : QueryObject) (decision : RetrievalDecision)
    (cands : List (CandidateEvidence α)) (hsoft : cfg.mode = "soft".toList) :
    OnlyObserves cfg query decision cands ↔
      (cfg.gateEnabled → ∀ p ∈ withNovelty [] (cands.map (annotateFreshness query)),
        Settled cfg query decision p.2 p.1) := by
  have hne : cfg.mode ≠ "hard".toList := by
    rw [hsoft]
    decide
  cases hon : cfg.gateEnabled with
  | false =>
    refine iff_of_true ⟨?_, fun packets => ?_⟩ fun h => absurd h Bool.false_ne_true
    · simp [applyAdmissionGate, hon]
    · simp [applyAdmissionGate, hon]
  | true =>
    rw [forall_prop_of_true rfl, ← judgeAll_judgeAll_iff hne]
    set fresh := cands.map (annotateFreshness query)
    set p := admissionPass cfg query decision cfg.mode fresh with hp
    obtain ⟨hobjects, hperm⟩ : p.objects = judgeAll cfg query decision cfg.mode fresh ∧
      p.admitted.Perm (List.range fresh.length) := admitted_of_soft hne fresh
    have hwith : (applyAdmissionGate { cfg with shadowEnabled := true } query decision cands).admittedObjects =
        p.admitted.filterMap fun i => (judgeAll cfg query decision "hard".toList p.objects)[i]? := by
      have hshadow : (true && decide (cfg.mode = "soft".toList)) = true := decide_eq_true hsoft
      change Passed.admittedObjects (if !cfg.gateEnabled then ⟨cands, List.range cands.length, []⟩
        else if true && decide (cfg.mode = "soft".toList) then
          { p with objects := (admissionPass cfg query decision "hard".toList p.objects).objects }
        else p) = _
      rw [hon, if_neg (by decide), if_pos hshadow, objects_hard]
      rfl
    have hwithout : (applyAdmissionGate { cfg with shadowEnabled := false } query decision cands).admittedObjects =
        p.admitted.filterMap fun i => p.objects[i]? := by
      rw [applyAdmissionGate, hon]
      rfl
    have hlength : p.objects.length = fresh.length := by rw [hobjects, length_judgeAll]
    have hseen : (applyAdmissionGate { cfg with shadowEnabled := true } query decision cands).admittedObjects =
        (applyAdmissionGate { cfg with shadowEnabled := false } query decision cands).admittedObjects ↔
          judgeAll cfg query decision "hard".toList p.objects = p.objects := by
      rw [hwith, hwithout]
      exact admittedObjects_eq_iff (hlength ▸ hperm) (length_judgeAll _ _)
    rw [hobjects] at hseen
    constructor
    · exact fun h => hseen.1 h.admitted
    · exact fun h => ⟨hseen.2 h, fun packets => by rw [hseen.2 h]⟩

end

/-- What the libraries tell of plain texts, and no settings but the mode. -/
def softGate : Admission ℚ where
  gateEnabled := true
  shadowEnabled := true
  mode := "soft".toList
  minScore := 1 / 4
  purposeThresholds := fun _ => none
  purposeTopK := fun _ => none
  topK := 5
  sourceAuthorityPrior := fun _ => none
  lower := fun t => t.map Char.toLower
  hasSteps := fun _ => false
  hasError := fun _ => false
  toFloat := fun _ => 0
  recency := fun _ => 1 / 2

def plainQuery : QueryObject := ⟨[], [], [], "unspecified".toList⟩

def generalDecision : RetrievalDecision := ⟨true, "general_grounded".toList, false⟩

def scoredHit (docId : String) (rerankScore : ℚ) : Hit ℚ where
  docId := docId.toList
  title := []
  content := docId.toList
  score := 0
  rerankScore := rerankScore
  rrfScore := 0
  relevanceScore := 0
  source := []
  metadata := .empty

/-- A candidate whose total comes out as its relevance. -/
theorem settled_observes : OnlyObserves { softGate with sourceAuthorityPrior := fun _ => some (5 / 8) } plainQuery
    generalDecision [.fromHit (scoredHit "a" (1 / 2))] :=
  (only_observes_iff _ _ _ _ rfl).2 fun _ => by decide +kernel

/-- A candidate below the threshold is admitted with `relevance_passed`, and comes out without it. -/
theorem shadow_rewrites :
    ¬ OnlyObserves softGate plainQuery generalDecision [.fromHit (scoredHit "a" (1 / 5))] :=
  fun h => absurd h.admitted (by decide +kernel)

end AgentLangraph.Evidence
