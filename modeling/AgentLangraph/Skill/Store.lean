import AgentLangraph.Lib.Trace
import AgentLangraph.Skill.Definition
import Mathlib.Logic.Function.Basic

/-! The store of a tenant's skill (`skill_store.py`): the working copy, and a record for each version, in a
    file that is named after it. Publishing records the working copy under the version it has; only the
    publishing of what is published already moves on to the next version.

        draft ── publish ──▶ published ── publish ──▶ published, next version
          ▲                    │    ▲
          └──── save_draft ────┘    └── rollback ── record -/

namespace AgentLangraph.Skill
open PyText Trace

inductive StoreError
  | keyError (message : Text) | valueError (message : Text) | osError
  deriving DecidableEq

/-- The files of one skill. A record is held by its snapshot, which is all that is read back; `published` is
    what `publish` has returned so far. -/
structure SkillStore (P : Type) where
  file : Option SkillDefinition
  records : P → Option SkillDefinition
  published : List SkillDefinition := []

/-- The version that follows: the last part counted up, as `publish` does it. -/
def nextVersion (digit : Char → Option ℕ) (version : Text) : Text :=
  let parts := version.splitOn '.'
  match PyVal.intOfText digit (parts.getLastD []) with
  | none => "1.0.1".toList
  | some n =>
    let base := if 1 < parts.length then List.intercalate ['.'] parts.dropLast else "1.0".toList
    base ++ ['.'] ++ (toString (n + 1)).toList

variable {P : Type} [DecidableEq P]
/- `path` is the file of a version in `versions/<skill_id>`, if it can be written. -/
variable (digit : Char → Option ℕ) (path : Text → Option P)

/-- The record that `rollback` finds for a version. -/
def SkillStore.record (s : SkillStore P) (version : Text) : Option SkillDefinition :=
  (path version).bind s.records

/-- `save_draft`. -/
def saveDraft (s : SkillStore P) (definition : SkillDefinition) : SkillStore P :=
  let version := match s.file with
    | some existing => if existing.status = .published then existing.version else definition.version
    | none => definition.version
  { s with file := some { definition with version := version, status := .draft } }

/-- `_archive_version`. -/
def archiveVersion (s : SkillStore P) (defn : SkillDefinition) : Except StoreError (SkillStore P) :=
  match path defn.version with
  | some p => .ok { s with records := Function.update s.records p (some defn) }
  | none => .error .osError

/-- `publish`. -/
def publish (skillId : Text) (knownTools : List Text) (s : SkillStore P) :
    Except StoreError (SkillDefinition × SkillStore P) :=
  match s.file with
  | none => .error (.keyError ("Skill not found: ".toList ++ skillId))
  | some defn =>
    let issues := validateSkillDefinition knownTools defn.content
    if issues ≠ [] then .error (.valueError (List.intercalate "; ".toList issues))
    else do
      let s ← archiveVersion path s defn
      let version := if defn.status = .published then nextVersion digit defn.version else defn.version
      let defn := { defn with version := version, status := .published, enabled := true }
      pure (defn, { s with file := some defn })

/-- `archive` and `disable`. -/
def retire (skillId : Text) (status : SkillStatus) (s : SkillStore P) :
    Except StoreError (SkillDefinition × SkillStore P) :=
  match s.file with
  | none => .error (.keyError skillId)
  | some defn =>
    let defn := { defn with status := status, enabled := false }
    .ok (defn, { s with file := some defn })

def archive (skillId : Text) (s : SkillStore P) : Except StoreError (SkillDefinition × SkillStore P) :=
  retire skillId .archived s

def disable (skillId : Text) (s : SkillStore P) : Except StoreError (SkillDefinition × SkillStore P) :=
  retire skillId .disabled s

/-- `rollback`. -/
def rollback (s : SkillStore P) (version : Text) : Except StoreError (SkillDefinition × SkillStore P) :=
  match s.record path version with
  | none => .error (.keyError ("Version not found: ".toList ++ version))
  | some snap =>
    let defn := { snap with status := .published, enabled := true }
    .ok (defn, { s with file := some defn })

/-! ### Runs -/

inductive StoreCall
  | saveDraft (definition : SkillDefinition)
  /-- The tools are those of the registry at the time. -/
  | publish (knownTools : List Text)
  | archive
  | disable
  | rollback (version : Text)

/-- The store after a call; one that raises leaves it as it is. -/
def SkillStore.after (s : SkillStore P) : Except StoreError (SkillDefinition × SkillStore P) → SkillStore P
  | .ok (_, s') => s'
  | .error _ => s

def call (skillId : Text) (s : SkillStore P) : StoreCall → SkillStore P
  | .saveDraft definition => saveDraft s definition
  | .publish knownTools =>
    match publish digit path skillId knownTools s with
    | .ok (defn, s') => { s' with published := s.published ++ [defn] }
    | .error _ => s
  | .archive => s.after (archive skillId s)
  | .disable => s.after (disable skillId s)
  | .rollback version => s.after (rollback path s version)

/-- A version that was published stays what it was: it is published with the same content, recorded with it,
    and a rollback to it makes it current. -/
structure Immutable (s : SkillStore P) : Prop where
  republished : ∀ a ∈ s.published, ∀ b ∈ s.published, a.version = b.version → a.content = b.content
  recorded : ∀ a ∈ s.published, ∀ r ∈ s.record path a.version, r.content = a.content
  restored : ∀ a ∈ s.published, ∀ d s', rollback path s a.version = .ok (d, s') →
    ∃ current ∈ s'.file, current.content = a.content

/-- The working copy is recorded over nothing that was published with another content, and where it is
    published already, the next version has neither been published nor recorded with another. -/
def Unclaimed (s : SkillStore P) (defn : SkillDefinition) : Prop :=
  (∀ a ∈ s.published, path a.version = path defn.version → a.content = defn.content) ∧
    (defn.status = .published →
      (∀ a ∈ s.published, a.version = nextVersion digit defn.version → a.content = defn.content) ∧
        (path (nextVersion digit defn.version) = path defn.version ∨
          ∀ r ∈ s.record path (nextVersion digit defn.version), r.content = defn.content))

/-- A call that publishes finds the version unclaimed. -/
def FindsUnclaimed (s : SkillStore P) : StoreCall → Prop
  | .publish knownTools => ∀ defn ∈ s.file, validateSkillDefinition knownTools defn.content = [] →
      path defn.version ≠ none → Unclaimed digit path s defn
  | _ => True

/-! ### The records -/

variable {digit : Char → Option ℕ} {path : Text → Option P} {s : SkillStore P}

omit [DecidableEq P] in
/-- A rollback to a version makes its record current. -/
theorem rollback_eq_ok {version : Text} {d : SkillDefinition} {s' : SkillStore P}
    (h : rollback path s version = .ok (d, s')) :
    ∃ snap ∈ s.record path version, s'.file = some d ∧ d.content = snap.content ∧
      s'.records = s.records ∧ s'.published = s.published := by
  rw [rollback] at h
  cases hrecord : s.record path version with
  | none => simp [hrecord] at h
  | some snap =>
    rw [hrecord] at h
    simp only [Except.ok.injEq, Prod.mk.injEq] at h
    obtain ⟨rfl, rfl⟩ := h
    exact ⟨snap, rfl, rfl, rfl, rfl, rfl⟩

omit [DecidableEq P] in
/-- What is restored follows from what is recorded. -/
theorem immutable_of_recorded
    (hpub : ∀ a ∈ s.published, ∀ b ∈ s.published, a.version = b.version → a.content = b.content)
    (hrec : ∀ a ∈ s.published, ∀ r ∈ s.record path a.version, r.content = a.content) :
    Immutable path s := by
  refine ⟨hpub, hrec, fun a ha d s' hback => ?_⟩
  obtain ⟨snap, hsnap, hfile, hcontent, -, -⟩ := rollback_eq_ok hback
  exact ⟨d, hfile, hcontent.trans (hrec a ha snap hsnap)⟩

omit [DecidableEq P] in
/-- A call that only changes the working copy leaves every version what it was. -/
theorem immutable_of_file {s' : SkillStore P} (h : Immutable path s) (hrecords : s'.records = s.records)
    (hpublished : s'.published = s.published) : Immutable path s' := by
  refine immutable_of_recorded ?_ ?_
  · rw [hpublished]
    exact h.republished
  · rw [hpublished]
    simp only [SkillStore.record, hrecords]
    exact h.recorded

/-- The record of a version after one was written to a file. -/
theorem record_update (p : P) (snap : SkillDefinition) (file : Option SkillDefinition)
    (published : List SkillDefinition) (version : Text) :
    SkillStore.record path ⟨file, Function.update s.records p (some snap), published⟩ version =
      if path version = some p then some snap else s.record path version := by
  rw [SkillStore.record, SkillStore.record]
  cases hp : path version with
  | none => rfl
  | some q =>
    change Function.update s.records p (some snap) q = _
    simp [Function.update_apply]

/-! ### Publishing -/

/-- What a publishing of this working copy returns. -/
def publishedCopy (digit : Char → Option ℕ) (defn : SkillDefinition) : SkillDefinition :=
  { defn with
    version := if defn.status = .published then nextVersion digit defn.version else defn.version
    status := .published
    enabled := true }

theorem publish_eq {skillId : Text} {knownTools : List Text} {defn : SkillDefinition} {p : P}
    (hfile : s.file = some defn) (hvalid : validateSkillDefinition knownTools defn.content = [])
    (hpath : path defn.version = some p) :
    publish digit path skillId knownTools s = .ok (publishedCopy digit defn,
      ⟨some (publishedCopy digit defn), Function.update s.records p (some defn), s.published⟩) := by
  rw [publish, hfile]
  simp only [hvalid, ne_eq, not_true_eq_false, if_false, archiveVersion, hpath]
  rfl

/-- Nothing is published from a working copy that is not there, not valid, or that cannot be recorded. -/
theorem publish_error (digit : Char → Option ℕ) (skillId : Text) {knownTools : List Text}
    (h : ¬ ∃ defn ∈ s.file, validateSkillDefinition knownTools defn.content = [] ∧ path defn.version ≠ none) :
    ∃ e, publish digit path skillId knownTools s = .error e := by
  rw [publish]
  cases hfile : s.file with
  | none => exact ⟨_, rfl⟩
  | some defn =>
    by_cases hvalid : validateSkillDefinition knownTools defn.content = []
    · have hpath : path defn.version = none := by
        by_contra hne
        exact h ⟨defn, hfile, hvalid, hne⟩
      simp only [hvalid, ne_eq, not_true_eq_false, if_false, archiveVersion, hpath]
      exact ⟨_, rfl⟩
    · simp only [hvalid, ne_eq, not_false_eq_true, if_true]
      exact ⟨_, rfl⟩

/-- PUBLISHING STEP: every version stays what it was exactly when the one published was unclaimed. -/
theorem immutable_publish_iff (h : Immutable path s) {defn : SkillDefinition} {p : P}
    (hpath : path defn.version = some p) (file : Option SkillDefinition) :
    Immutable path ⟨file, Function.update s.records p (some defn), s.published ++ [publishedCopy digit defn]⟩ ↔
      Unclaimed digit path s defn := by
  have hversion : (publishedCopy digit defn).version =
      if defn.status = .published then nextVersion digit defn.version else defn.version := rfl
  have hcontent : (publishedCopy digit defn).content = defn.content := rfl
  generalize publishedCopy digit defn = new at hversion hcontent
  constructor
  · rintro ⟨hpub, hrec, -⟩
    refine ⟨fun a ha hsame => ?_, fun hstatus => ?_⟩
    · refine (hrec a (List.mem_append_left _ ha) defn ?_).symm
      rw [record_update, if_pos (hsame.trans hpath)]
      rfl
    · rw [if_pos hstatus] at hversion
      have hnew : new ∈ s.published ++ [new] := List.mem_append_right _ (List.mem_singleton_self new)
      refine ⟨fun a ha hsame => ?_, ?_⟩
      · rw [← hcontent]
        exact hpub a (List.mem_append_left _ ha) new hnew (hsame.trans hversion.symm)
      · rw [or_iff_not_imp_left, hpath, ← hversion]
        intro hother r hr
        rw [← hcontent]
        refine hrec new hnew r ?_
        rwa [record_update, if_neg hother]
  · rintro ⟨hsame, hnext⟩
    refine immutable_of_recorded ?_ ?_
    · have hclaim : ∀ a ∈ s.published, a.version = new.version → a.content = new.content := by
        intro a ha heq
        rw [hcontent]
        split_ifs at hversion with hstatus
        · exact (hnext hstatus).1 a ha (heq.trans hversion)
        · exact hsame a ha (by rw [heq, hversion])
      intro a ha b hb heq
      rw [List.mem_append, List.mem_singleton] at ha hb
      rcases ha with ha | rfl <;> rcases hb with hb | rfl
      · exact h.republished a ha b hb heq
      · exact hclaim a ha heq
      · exact (hclaim b hb heq.symm).symm
      · rfl
    · intro a ha r hr
      rw [record_update] at hr
      rw [List.mem_append, List.mem_singleton] at ha
      split_ifs at hr with hfile
      · obtain rfl := Option.mem_some.1 hr
        rcases ha with ha | rfl
        · exact (hsame a ha (hfile.trans hpath.symm)).symm
        · exact hcontent.symm
      · rcases ha with ha | rfl
        · exact h.recorded a ha r hr
        · rw [hcontent]
          split_ifs at hversion with hstatus
          · rw [hversion] at hfile hr
            rcases (hnext hstatus).2 with heq | hrec
            · exact absurd (heq.trans hpath) hfile
            · exact hrec r hr
          · exact absurd (by rw [hversion, hpath]) hfile

/-! ### Calls -/

omit [DecidableEq P] in
theorem immutable_retire (h : Immutable path s) (skillId : Text) (status : SkillStatus) :
    Immutable path (s.after (retire skillId status s)) := by
  rw [retire]
  cases hfile : s.file with
  | none => exact h
  | some defn => exact immutable_of_file h rfl rfl

theorem immutable_call_iff (skillId : Text) (s : SkillStore P) (c : StoreCall) (h : Immutable path s) :
    Immutable path (call digit path skillId s c) ↔ FindsUnclaimed digit path s c := by
  cases c with
  | saveDraft definition => exact iff_of_true (immutable_of_file h rfl rfl) trivial
  | publish knownTools =>
    by_cases hready : ∃ defn ∈ s.file,
        validateSkillDefinition knownTools defn.content = [] ∧ path defn.version ≠ none
    · obtain ⟨defn, hfile, hvalid, hne⟩ := hready
      obtain ⟨p, hpath⟩ := Option.ne_none_iff_exists'.1 hne
      rw [call, publish_eq hfile hvalid hpath]
      rw [Option.mem_def] at hfile
      refine (immutable_publish_iff h hpath _).trans ?_
      simp [FindsUnclaimed, hfile, hvalid, hne]
    · obtain ⟨e, herror⟩ := publish_error digit skillId hready
      rw [call, herror]
      refine iff_of_true h fun defn hfile hvalid hne => ?_
      exact absurd ⟨defn, hfile, hvalid, hne⟩ hready
  | archive | disable => exact iff_of_true (immutable_retire h skillId _) trivial
  | rollback version =>
    refine iff_of_true ?_ trivial
    rw [call]
    cases hback : rollback path s version with
    | error e => exact h
    | ok r =>
      obtain ⟨-, -, -, -, hrecords, hpublished⟩ := rollback_eq_ok hback
      exact immutable_of_file h hrecords hpublished

/-- NOT CORRECT: a published version is published again with another content where a draft over a published
    skill, which keeps its version, or a rollback has changed the working copy. Along every run of calls, from
    whatever files, the versions stay what they were exactly when every publishing finds its version
    unclaimed. -/
theorem versions_immutable_iff (digit : Char → Option ℕ) (path : Text → Option P) (skillId : Text)
    (file : Option SkillDefinition) (records : P → Option SkillDefinition) (calls : List StoreCall) :
    Along (call digit path skillId) (fun s c => Immutable path (call digit path skillId s c))
        ⟨file, records, []⟩ calls ↔
      Along (call digit path skillId) (FindsUnclaimed digit path) ⟨file, records, []⟩ calls :=
  along_iff (immutable_call_iff skillId) (fun s c hs hc => (immutable_call_iff skillId s c hs).2 hc) calls _
    (immutable_of_recorded (by simp) (by simp))

/-- A skill for summaries, with an instruction for its planning. -/
def summary (overlay : String) : SkillDefinition where
  content := { skillId := "summary".toList, name := "Summary".toList, planningOverlay := overlay.toList }

/-- A draft over the published skill is published as the version 1.0.0 again, over the record of the first. -/
theorem version_published_twice :
    ¬ Along (call (fun _ => none) some "summary".toList)
      (fun s c => Immutable some (call (fun _ => none) some "summary".toList s c)) ⟨none, fun _ => none, []⟩
      [.saveDraft (summary "Be brief."), .publish [], .saveDraft (summary "Be thorough."), .publish []] := by
  rintro ⟨-, -, -, hlast, -⟩
  have hsame := hlast.republished (publishedCopy (fun _ => none) { summary "Be brief." with status := .draft })
    (.head _) (publishedCopy (fun _ => none) { summary "Be thorough." with status := .draft })
    (.tail _ (.head _)) rfl
  exact absurd hsame (by decide)

/-! ### What goes live -/

section
variable (digit : Char → Option ℕ) (path : Text → Option P)

/-- The calls, with the two that make and remove a skill. -/
inductive SkillEdit
  | call (c : StoreCall)
  /-- `clone_from` into this skill, with the content that it makes of the source's. -/
  | cloneFrom (content : SkillContent)
  | delete

/-- `clone_from`. -/
def cloneFrom (skillId : Text) (content : SkillContent) (s : SkillStore P) :
    Except StoreError (SkillDefinition × SkillStore P) :=
  match s.file with
  | some _ => .error (.valueError ("Skill already exists: ".toList ++ skillId))
  | none =>
    let clone : SkillDefinition := { content := content, version := "1.0.0".toList, status := .draft, enabled := true }
    .ok (clone, { s with file := some clone })

/-- `delete`, with the records that `glob("*.json")` lists. -/
def delete (globbed : P → Bool) (s : SkillStore P) : Bool × SkillStore P :=
  match s.file with
  | none => (false, s)
  | some _ => (true, { s with file := none, records := fun p => if globbed p then none else s.records p })

def edit (globbed : P → Bool) (skillId : Text) (s : SkillStore P) : SkillEdit → SkillStore P
  | .call c => call digit path skillId s c
  | .cloneFrom content => s.after (cloneFrom skillId content s)
  | .delete => (delete globbed s).2

/-- The registries that the publishings of a run have checked against. -/
def registries (edits : List SkillEdit) : List (List Text) :=
  edits.filterMap fun
    | .call (.publish knownTools) => some knownTools
    | _ => none

/-- The content has passed a check against one of the registries. -/
def Passed (registries : List (List Text)) (c : SkillContent) : Prop :=
  ∃ knownTools ∈ registries, validateSkillDefinition knownTools c = []

/-- What is current as published, what is recorded, and what was published has passed the check. -/
structure Sound (registries : List (List Text)) (s : SkillStore P) : Prop where
  file : ∀ d ∈ s.file, d.status = .published → Passed registries d.content
  records : ∀ p, ∀ r ∈ s.records p, Passed registries r.content
  published : ∀ d ∈ s.published, Passed registries d.content

end

omit [DecidableEq P] in
theorem Sound.mono {before after : List (List Text)} (h : Sound before s) (hsub : before ⊆ after) : Sound after s := by
  have hpassed : ∀ c, Passed before c → Passed after c := fun c hc =>
    hc.imp fun knownTools hin => ⟨hsub hin.1, hin.2⟩
  exact ⟨fun d hd hstatus => hpassed _ (h.file d hd hstatus), fun p r hr => hpassed _ (h.records p r hr),
    fun d hd => hpassed _ (h.published d hd)⟩

omit [DecidableEq P] in
/-- A working copy that is not published may be anything. -/
theorem Sound.withFile {known : List (List Text)} (h : Sound known s) {d : SkillDefinition}
    (hd : d.status ≠ .published) : Sound known { s with file := some d } :=
  ⟨fun d' hd' hstatus => by
    rw [Option.mem_some_iff] at hd'
    exact absurd (hd' ▸ hstatus) hd, h.records, h.published⟩

theorem Sound.publish {known : List (List Text)} {skillId : Text} {knownTools : List Text} (h : Sound known s) :
    Sound (known ++ [knownTools]) (call digit path skillId s (.publish knownTools)) := by
  have hold := h.mono (List.subset_append_left known [knownTools])
  by_cases hgood : ∃ defn ∈ s.file, validateSkillDefinition knownTools defn.content = [] ∧ path defn.version ≠ none
  · obtain ⟨defn, hfile, hvalid, hpath⟩ := hgood
    obtain ⟨p, hp⟩ := Option.ne_none_iff_exists'.1 hpath
    have hnew : Passed (known ++ [knownTools]) defn.content :=
      ⟨knownTools, List.mem_append_right _ (List.mem_singleton_self _), hvalid⟩
    rw [call, publish_eq hfile hvalid hp]
    refine ⟨fun d hd _ => ?_, fun q r hr => ?_, fun d hd => ?_⟩
    · rw [Option.mem_some_iff] at hd
      exact hd ▸ hnew
    · dsimp only at hr
      rw [Function.update_apply] at hr
      split_ifs at hr
      · exact Option.mem_some_iff.1 hr ▸ hnew
      · exact hold.records q r hr
    · rcases List.mem_append.1 hd with hd | hd
      · exact hold.published d hd
      · exact List.mem_singleton.1 hd ▸ hnew
  · obtain ⟨e, he⟩ := publish_error digit skillId hgood
    rw [call, he]
    exact hold

theorem Sound.edit {known : List (List Text)} {globbed : P → Bool} {skillId : Text} (h : Sound known s)
    (e : SkillEdit) : Sound (known ++ registries [e]) (edit digit path globbed skillId s e) := by
  have hretire : ∀ status ≠ SkillStatus.published, Sound known (s.after (retire skillId status s)) := by
    intro status hstatus
    rw [retire]
    cases s.file with
    | none => exact h
    | some defn => exact h.withFile hstatus
  have hcall : ∀ c, registries [.call c] = [] → Sound known (call digit path skillId s c) := by
    intro c hc
    cases c with
    | saveDraft definition => exact h.withFile nofun
    | publish knownTools => cases hc
    | archive => exact hretire .archived nofun
    | disable => exact hretire .disabled nofun
    | rollback version =>
      rw [call]
      cases hback : rollback path s version with
      | error e => exact h
      | ok result =>
        obtain ⟨snap, hsnap, hfile, hcontent, hrecords, hpublished⟩ := rollback_eq_ok hback
        obtain ⟨p, -, hp⟩ := Option.bind_eq_some_iff.1 hsnap
        refine ⟨fun d hd _ => ?_, fun q r hr => h.records q r (hrecords ▸ hr),
          fun d hd => h.published d (hpublished ▸ hd)⟩
        change d ∈ result.2.file at hd
        rw [hfile, Option.mem_some_iff] at hd
        rw [← hd, hcontent]
        exact h.records p snap hp
  cases e with
  | call c =>
    by_cases hc : registries [.call c] = []
    · rw [hc, List.append_nil]
      exact hcall c hc
    · cases c with
      | publish knownTools => exact h.publish
      | _ => exact absurd rfl hc
  | cloneFrom content =>
    refine Sound.mono ?_ (List.subset_append_left known _)
    rw [Skill.edit, cloneFrom]
    cases s.file with
    | none => exact h.withFile nofun
    | some defn => exact h
  | delete =>
    refine Sound.mono ?_ (List.subset_append_left known _)
    rw [Skill.edit, delete]
    cases s.file with
    | none => exact h
    | some defn =>
      refine ⟨nofun, fun p r hr => ?_, h.published⟩
      dsimp only at hr
      split_ifs at hr
      · cases hr
      · exact h.records p r hr

/-- Whatever is done to a skill, it goes live with a content that a publishing has checked against the registry of its
    time: as the working copy, by a rollback to a record, or as what was published. -/
theorem live_passed (digit : Char → Option ℕ) (path : Text → Option P) (globbed : P → Bool) (skillId : Text)
    (edits : List SkillEdit) :
    Sound (registries edits) (run (edit digit path globbed skillId) ⟨none, fun _ => none, []⟩ edits) := by
  induction edits using List.reverseRecOn with
  | nil => exact ⟨nofun, nofun, nofun⟩
  | append_singleton edits e ih =>
    rw [run_append, run_cons, run_nil, registries, List.filterMap_append]
    exact ih.edit e

end AgentLangraph.Skill
