import AgentLangraph.Lib.PyPath
import AgentLangraph.Lib.Trace
import Mathlib.Data.List.Infix
import Mathlib.Data.Rat.Floor

/-! Removing with a preview (`handle_rm_path` of `session_fs_tools.py`). A dry run puts a token into a table of the
    process, under a key that is written from the task, the resolved path and the flag; a removal has to show the
    token that stands under its key, and takes it out.

        dry run ──issue──▶ key ↦ (token, at) ──require──▶ removal
                                │ over the TTL: gone

    Two different targets may be written alike: a task named `a|/x` and the task `a`. -/

namespace AgentLangraph.Session.RmPreview
open PyText Trace

inductive Raise
  | valueError (message : Text)
  | fileNotFound (message : Text)
  /-- Of the deletion itself. -/
  | osError (message : Text)
  deriving DecidableEq

/-! ### The table of tokens -/

/-- What is removed: the task, the resolved path and the flag. -/
structure Target where
  taskId : Text
  path : Text
  recursive : Bool
  deriving DecidableEq

/-- `str(int(recursive))`. -/
def flagText (recursive : Bool) : Text := if recursive then ['1'] else ['0']

/-- `_rm_preview_key`. -/
def Target.key (t : Target) : Text := t.taskId ++ "|".toList ++ t.path ++ "|".toList ++ flagText t.recursive

structure Preview where
  token : Text
  at_ : ℚ
  deriving DecidableEq

/-- `_RM_PREVIEW_TOKENS`. -/
abbrev Tokens := Text → Option Preview

/-- `_RM_PREVIEW_TTL_SECONDS`. -/
def ttlSeconds : ℚ := 600

/-- `_cleanup_rm_preview_tokens`. -/
def cleanup (tokens : Tokens) (now : ℚ) : Tokens := fun key => (tokens key).filter fun p => !(ttlSeconds < now - p.at_)

/-- `_issue_rm_preview_token`; `token` is the one that is drawn, `stamp` the time it is written with. -/
def issue (tokens : Tokens) (t : Target) (token : Text) (now stamp : ℚ) : Tokens :=
  Function.update (cleanup tokens now) t.key (some ⟨token, stamp⟩)

/-- `_require_rm_preview_token`: the table afterwards, and whether the token was the right one. -/
def require (tokens : Tokens) (t : Target) (token : Text) (now : ℚ) : Bool × Tokens :=
  let tokens := cleanup tokens now
  if (tokens t.key).any fun p => p.token = token then (true, Function.update tokens t.key none) else (false, tokens)

/-! ### The handler -/

/-- What stands at a path. -/
inductive Node
  | absent
  | file (size : ℕ)
  | dir (children : ℕ)
  | other

/-- How a deletion goes: how many files and directories it removes before it is done or raises. -/
structure Deletion where
  removed : ℕ
  error : Option Text

/-- The arguments of a call, and what the call is told by the file system, the clock and `uuid4`. -/
structure Call where
  taskId : Text
  path : Text
  recursive : Bool := false
  dryRun : Bool := false
  previewToken : Text := []
  artifactsRoot : PurePath
  /-- `Path.resolve`. -/
  resolve : PurePath → PurePath
  node : PurePath → Node
  deletion : Deletion
  now : ℚ
  stamp : ℚ
  fresh : Text

/-- `re.sub(r"[^a-zA-Z0-9\-_]", "", task_id)`. -/
def safeId (taskId : Text) : Text := taskId.filter fun c => c.isAlphanum || c == '-' || c == '_'

/-- `_session_root`. -/
def Call.sessionRoot (c : Call) : Except Raise PurePath :=
  if safeId c.taskId = [] then .error (.valueError "Invalid task_id for artifact path".toList)
  else .ok (c.resolve (c.artifactsRoot.join (safeId c.taskId)))

def PurePath.isRelativeTo (p root : PurePath) : Bool := p.root = root.root && root.parts.isPrefixOf p.parts

/-- `_resolve_in_session`. -/
def Call.resolveInSession (c : Call) (root : PurePath) : Except Raise PurePath :=
  let rel := PurePath.ofText (strip c.path)
  if rel.toText = [] then .error (.valueError "path is required".toList)
  else if rel = PurePath.ofText ".".toList then
    .error (.valueError "operation on session root is not allowed".toList)
  else if rel.root ≠ [] then .error (.valueError "absolute path is not allowed".toList)
  else
    let target := c.resolve (root.join rel.toText)
    if PurePath.isRelativeTo target root then .ok target
    else .error (.valueError "path escapes session directory".toList)

/-- What is reported of a removal; `count` are the bytes of a file or the entries of a directory. -/
structure Report where
  path : Text
  removedType : Text
  count : ℕ
  dryRun : Bool
  previewToken : Option Text := none
  deriving DecidableEq

/-- `handle_rm_path` up to the tokens. -/
def Call.examine (c : Call) : Except Raise Report := do
  let root ← c.sessionRoot
  let path ← c.resolveInSession root
  if path = root then .error (.valueError "cannot remove session root".toList)
  else
    match c.node path with
    | .absent => .error (.fileNotFound ("Path not found: ".toList ++ c.path))
    | .file size => .ok { path := path.toText, removedType := "file".toList, count := size, dryRun := c.dryRun }
    | .dir children =>
      if 0 < children ∧ !c.recursive then
        .error (.valueError "directory is not empty; set recursive=true".toList)
      else
        .ok {
          path := path.toText
          removedType := (if c.recursive then "dir_recursive" else "dir").toList
          count := children
          dryRun := c.dryRun }
    | .other => .error (.valueError "unsupported path type".toList)

/-- What happens to tokens, in order. -/
inductive Event
  | issued (t : Target) (token : Text) (at_ : ℚ)
  | used (token : Text)
  deriving DecidableEq

/-- What a call returns and leaves, and how much it removed. -/
structure Result where
  reply : Except Raise Report
  tokens : Tokens
  removed : ℕ
  event : Option Event

def Call.target (c : Call) (r : Report) : Target := ⟨c.taskId, r.path, c.recursive⟩

/-- `handle_rm_path`. -/
def handleRmPath (tokens : Tokens) (c : Call) : Result :=
  match c.examine with
  | .error e => ⟨.error e, tokens, 0, none⟩
  | .ok report =>
    let t := c.target report
    if c.dryRun then
      ⟨.ok { report with previewToken := some c.fresh }, issue tokens t c.fresh c.now c.stamp, 0,
        some (.issued t c.fresh c.stamp)⟩
    else
      let checked := require tokens t (strip c.previewToken) c.now
      if checked.1 then
        ⟨match c.deletion.error with
          | none => .ok report
          | some message => .error (.osError message),
          checked.2, c.deletion.removed, some (.used (strip c.previewToken))⟩
      else ⟨.error (.valueError "preview_token required: run dry_run first".toList), checked.2, 0, none⟩

/-! ### Histories -/

/-- The table, and what has happened to tokens so far. -/
structure State where
  tokens : Tokens
  log : List Event

def State.start : State := ⟨fun _ => none, []⟩

def State.step (s : State) (c : Call) : State :=
  let r := handleRmPath s.tokens c
  ⟨r.tokens, s.log ++ r.event.toList⟩

/-- The last dry run of a kind of target: its target, its token and its time. -/
def lastIssued (p : Target → Bool) (log : List Event) : Option (Target × Text × ℚ) :=
  log.reverse.findSome? fun e =>
    match e with
    | .issued t token at_ => if p t then some (t, token, at_) else none
    | .used _ => none

/-- A call that removes something shows the token of the last dry run of its own target, not over the TTL and not
    used before. -/
def Vouched (s : State) (c : Call) : Prop :=
  ∀ report, c.examine = .ok report → 0 < (handleRmPath s.tokens c).removed →
    ∃ at_, lastIssued (· = c.target report) s.log = some (c.target report, strip c.previewToken, at_) ∧
      c.now - at_ ≤ ttlSeconds ∧ .used (strip c.previewToken) ∉ s.log

/-- The token that is drawn is none of those drawn before. -/
def Fresh (s : State) (c : Call) : Prop := ∀ t at_, .issued t c.fresh at_ ∉ s.log

/-- A removal that shows the token under its key shows one that was issued for its target: the last dry run with
    that key was of this task, path and flag. -/
def OwnKey (s : State) (c : Call) : Prop :=
  ∀ report, c.examine = .ok report → c.dryRun = false → 0 < c.deletion.removed →
    (∃ p ∈ cleanup s.tokens c.now (c.target report).key, p.token = strip c.previewToken) →
      ∀ t token at_, lastIssued (·.key = (c.target report).key) s.log = some (t, token, at_) → t = c.target report

/-! ### The last dry run -/

@[simp] theorem lastIssued_nil (p : Target → Bool) : lastIssued p [] = none := rfl

theorem lastIssued_issued (p : Target → Bool) (log : List Event) (t : Target) (token : Text) (at_ : ℚ) :
    lastIssued p (log ++ [Event.issued t token at_]) = if p t then some (t, token, at_) else lastIssued p log := by
  rw [lastIssued, lastIssued, List.reverse_append, List.reverse_singleton, List.singleton_append,
    List.findSome?_cons]
  by_cases hp : p t <;> simp [hp]

theorem lastIssued_used (p : Target → Bool) (log : List Event) (token : Text) :
    lastIssued p (log ++ [Event.used token]) = lastIssued p log := by
  rw [lastIssued, lastIssued, List.reverse_append, List.reverse_singleton, List.singleton_append,
    List.findSome?_cons]

theorem mem_of_lastIssued {p : Target → Bool} {t : Target} {token : Text} {at_ : ℚ} {log : List Event} :
    lastIssued p log = some (t, token, at_) → .issued t token at_ ∈ log ∧ p t := by
  induction log using List.reverseRecOn with
  | nil => exact nofun
  | append_singleton log e ih =>
    intro h
    cases e with
    | issued t' token' at' =>
      rw [lastIssued_issued] at h
      split_ifs at h with hp
      · rw [Option.some.injEq, Prod.mk.injEq, Prod.mk.injEq] at h
        obtain ⟨rfl, rfl, rfl⟩ := h
        exact ⟨List.mem_append_right _ (List.mem_singleton_self _), hp⟩
      · exact ⟨List.mem_append_left _ (ih h).1, (ih h).2⟩
    | used token' =>
      rw [lastIssued_used] at h
      exact ⟨List.mem_append_left _ (ih h).1, (ih h).2⟩

/-- The last of a larger kind is the last of a smaller one that it belongs to. -/
theorem lastIssued_of_imp {p q : Target → Bool} (hpq : ∀ t, q t → p t) {t : Target} {token : Text} {at_ : ℚ}
    (hq : q t) {log : List Event} :
    lastIssued p log = some (t, token, at_) → lastIssued q log = some (t, token, at_) := by
  induction log using List.reverseRecOn with
  | nil => exact nofun
  | append_singleton log e ih =>
    intro h
    cases e with
    | issued t' token' at' =>
      rw [lastIssued_issued] at h ⊢
      split_ifs at h with hp
      · rw [Option.some.injEq, Prod.mk.injEq, Prod.mk.injEq] at h
        obtain ⟨rfl, rfl, rfl⟩ := h
        rw [if_pos hq]
      · rw [if_neg fun hq' => hp (hpq t' hq'), ih h]
    | used token' =>
      rw [lastIssued_used] at h ⊢
      exact ih h

/-! ### What a call does to the table and the log -/

theorem handle_error {tokens : Tokens} {c : Call} {e : Raise} (h : c.examine = .error e) :
    handleRmPath tokens c = ⟨.error e, tokens, 0, none⟩ := by rw [handleRmPath, h]

theorem handle_dry {tokens : Tokens} {c : Call} {report : Report} (h : c.examine = .ok report)
    (hdry : c.dryRun = true) :
    handleRmPath tokens c = ⟨.ok { report with previewToken := some c.fresh },
      issue tokens (c.target report) c.fresh c.now c.stamp, 0, some (.issued (c.target report) c.fresh c.stamp)⟩ := by
  rw [handleRmPath, h]
  exact if_pos hdry

theorem handle_removal {tokens : Tokens} {c : Call} {report : Report} (h : c.examine = .ok report)
    (hdry : c.dryRun = false) : handleRmPath tokens c =
      let checked := require tokens (c.target report) (strip c.previewToken) c.now
      if checked.1 then ⟨match c.deletion.error with
          | none => .ok report
          | some message => .error (.osError message),
          checked.2, c.deletion.removed, some (.used (strip c.previewToken))⟩
      else ⟨.error (.valueError "preview_token required: run dry_run first".toList), checked.2, 0, none⟩ := by
  rw [handleRmPath, h]
  exact if_neg (by rw [hdry]; decide)

/-- STEP: nothing, a new token under the key, a cleanup, or the token under the key is taken out. -/
theorem step_cases (s : State) (c : Call) :
    (s.step c = s ∧ (handleRmPath s.tokens c).removed = 0) ∨
    (∃ report, c.examine = .ok report ∧ c.dryRun = true ∧ (handleRmPath s.tokens c).removed = 0 ∧
      s.step c = ⟨issue s.tokens (c.target report) c.fresh c.now c.stamp,
        s.log ++ [.issued (c.target report) c.fresh c.stamp]⟩) ∨
    (s.step c = ⟨cleanup s.tokens c.now, s.log⟩ ∧ (handleRmPath s.tokens c).removed = 0) ∨
    ∃ report p, c.examine = .ok report ∧ c.dryRun = false ∧
      cleanup s.tokens c.now (c.target report).key = some p ∧ p.token = strip c.previewToken ∧
      (handleRmPath s.tokens c).removed = c.deletion.removed ∧
      s.step c = ⟨Function.update (cleanup s.tokens c.now) (c.target report).key none,
        s.log ++ [.used (strip c.previewToken)]⟩ := by
  rw [State.step]
  cases hexamine : c.examine with
  | error e =>
    rw [handle_error hexamine]
    exact Or.inl ⟨by simp, rfl⟩
  | ok report =>
    cases hdry : c.dryRun with
    | true =>
      rw [handle_dry hexamine hdry]
      exact Or.inr (Or.inl ⟨report, rfl, rfl, rfl, rfl⟩)
    | false =>
      rw [handle_removal hexamine hdry, require]
      cases hrow : cleanup s.tokens c.now (c.target report).key with
      | none => exact Or.inr (Or.inr (Or.inl ⟨by simp, rfl⟩))
      | some p =>
        by_cases htoken : p.token = strip c.previewToken
        · exact Or.inr (Or.inr (Or.inr ⟨report, p, rfl, rfl, hrow, htoken, by simp [htoken], by simp [htoken]⟩))
        · exact Or.inr (Or.inr (Or.inl ⟨by simp [htoken], by simp [htoken]⟩))

/-- What stands under a key is the token of the last dry run with that key, not used; a token has one target, and
    is used only if it was issued. -/
structure State.Sound (s : State) : Prop where
  row : ∀ key p, s.tokens key = some p →
    (∃ t, lastIssued (·.key = key) s.log = some (t, p.token, p.at_)) ∧ .used p.token ∉ s.log
  owner : ∀ t t' token at_ at', .issued t token at_ ∈ s.log → .issued t' token at' ∈ s.log → t = t'
  used : ∀ token, .used token ∈ s.log → ∃ t at_, .issued t token at_ ∈ s.log

theorem sound_start : State.start.Sound := ⟨nofun, nofun, nofun⟩

theorem mem_cleanup {tokens : Tokens} {now : ℚ} {key : Text} {p : Preview} (h : cleanup tokens now key = some p) :
    tokens key = some p ∧ now - p.at_ ≤ ttlSeconds := by
  rw [cleanup, Option.filter_eq_some_iff, Bool.not_eq_true', decide_eq_false_iff_not, not_lt] at h
  exact h

theorem sound_cleanup {s : State} (h : s.Sound) (now : ℚ) : (⟨cleanup s.tokens now, s.log⟩ : State).Sound :=
  ⟨fun key p hp => h.row key p (mem_cleanup hp).1, h.owner, h.used⟩

theorem sound_step {s : State} (h : s.Sound) (c : Call) (hfresh : Fresh s c) : (s.step c).Sound := by
  rcases step_cases s c with ⟨hstep, -⟩ | ⟨report, -, -, -, hstep⟩ | ⟨hstep, -⟩ |
    ⟨report, p, -, -, hrow, htoken, -, hstep⟩
  · rw [hstep]
    exact h
  · -- a new token, under its key
    rw [hstep]
    refine ⟨fun key p hp => ?_, fun t t' token at_ at' ht ht' => ?_, fun token hused => ?_⟩
    · dsimp only [issue] at hp ⊢
      rw [Function.update_apply] at hp
      split_ifs at hp with hkey
      · rw [Option.some.injEq] at hp
        subst hp
        refine ⟨⟨c.target report, by rw [lastIssued_issued, if_pos (decide_eq_true hkey.symm)]⟩, fun hused => ?_⟩
        rw [List.mem_append, List.mem_singleton] at hused
        obtain ⟨t, at_, ht⟩ := h.used c.fresh (hused.resolve_right nofun)
        exact hfresh t at_ ht
      · obtain ⟨⟨t, hlast⟩, hnot⟩ := h.row key p (mem_cleanup hp).1
        refine ⟨⟨t, ?_⟩, fun hused => ?_⟩
        · rw [lastIssued_issued, if_neg (fun heq => hkey (of_decide_eq_true heq).symm), hlast]
        · rw [List.mem_append, List.mem_singleton] at hused
          exact hnot (hused.resolve_right nofun)
    · simp only [List.mem_append, List.mem_singleton, Event.issued.injEq] at ht ht'
      rcases ht with ht | ⟨rfl, rfl, rfl⟩
      · rcases ht' with ht' | ⟨rfl, rfl, rfl⟩
        · exact h.owner t t' token at_ at' ht ht'
        · exact absurd ht (hfresh t at_)
      · rcases ht' with ht' | ⟨rfl, -, -⟩
        · exact absurd ht' (hfresh t' at')
        · rfl
    · rw [List.mem_append, List.mem_singleton] at hused
      obtain ⟨t, at_, ht⟩ := h.used token (hused.resolve_right nofun)
      exact ⟨t, at_, List.mem_append_left _ ht⟩
  · rw [hstep]
    exact sound_cleanup h c.now
  · -- the token is taken out, and it stands under no other key
    rw [hstep]
    obtain ⟨⟨t₀, hlast₀⟩, -⟩ := h.row _ p (mem_cleanup hrow).1
    have hissued := mem_of_lastIssued hlast₀
    refine ⟨fun key p' hp' => ?_, fun t t' token at_ at' ht ht' => ?_, fun token hused => ?_⟩
    · dsimp only at hp' ⊢
      rw [Function.update_apply] at hp'
      split_ifs at hp' with hkey
      obtain ⟨⟨t, hlast⟩, hnot⟩ := h.row key p' (mem_cleanup hp').1
      refine ⟨⟨t, by rw [lastIssued_used, hlast]⟩, fun hused => ?_⟩
      rw [List.mem_append, List.mem_singleton, Event.used.injEq] at hused
      rcases hused with hused | hsame
      · exact hnot hused
      · -- the same token under two keys has two targets
        have hissued' := mem_of_lastIssued hlast
        rw [hsame, ← htoken] at hissued'
        have hsametarget := h.owner _ _ _ _ _ hissued.1 hissued'.1
        exact hkey ((of_decide_eq_true hissued'.2).symm.trans (hsametarget ▸ of_decide_eq_true hissued.2))
    · simp only [List.mem_append, List.mem_singleton, reduceCtorEq, or_false] at ht ht'
      exact h.owner t t' token at_ at' ht ht'
    · rw [List.mem_append, List.mem_singleton, Event.used.injEq] at hused
      rcases hused with hused | rfl
      · obtain ⟨t, at_, ht⟩ := h.used token hused
        exact ⟨t, at_, List.mem_append_left _ ht⟩
      · exact ⟨t₀, p.at_, List.mem_append_left _ (htoken ▸ hissued.1)⟩

/-- A removal is vouched for exactly when its key is its own. -/
theorem vouched_iff {s : State} (h : s.Sound) (c : Call) : Vouched s c ↔ OwnKey s c := by
  constructor
  · rintro hvouched report hreport hdry hremoves ⟨p, hp, htoken⟩ t token at_ hlast
    have hremoved : 0 < (handleRmPath s.tokens c).removed := by
      have hrow : cleanup s.tokens c.now (c.target report).key = some p := hp
      rw [handleRmPath, hreport]
      simp [hdry, require, hrow, htoken, hremoves]
    obtain ⟨at', hown, -, -⟩ := hvouched report hreport hremoved
    -- one token, one target
    obtain ⟨⟨t₀, hlast₀⟩, -⟩ := h.row _ p (mem_cleanup hp).1
    rw [hlast₀, Option.some.injEq, Prod.mk.injEq, Prod.mk.injEq] at hlast
    obtain ⟨rfl, -, -⟩ := hlast
    exact h.owner _ _ _ _ at' (mem_of_lastIssued hlast₀).1 (htoken ▸ (mem_of_lastIssued hown).1)
  · intro hown report hreport hremoved
    rcases step_cases s c with ⟨-, hnone⟩ | ⟨_, -, -, hnone, -⟩ | ⟨-, hnone⟩ |
      ⟨report', p, hreport', hdry, hrow, htoken, hcount, -⟩
    · omega
    · omega
    · omega
    · rw [hreport, Except.ok.injEq] at hreport'
      subst hreport'
      obtain ⟨hstored, hage⟩ := mem_cleanup hrow
      obtain ⟨⟨t, hlast⟩, hnot⟩ := h.row _ p hstored
      obtain rfl := hown report hreport hdry (hcount ▸ hremoved) ⟨p, hrow, htoken⟩ t p.token p.at_ hlast
      rw [htoken] at hlast hnot
      refine ⟨p.at_, lastIssued_of_imp (fun t ht => ?_) (decide_eq_true rfl) hlast, hage, hnot⟩
      rw [of_decide_eq_true ht]
      exact decide_eq_true rfl

/-- RUN: every removal is vouched for exactly when each removal's key is its own. -/
theorem vouched_run_iff : ∀ (history : List Call) (s : State), s.Sound → Along State.step Fresh s history →
    (Along State.step Vouched s history ↔ Along State.step OwnKey s history)
  | [], _, _, _ => Iff.rfl
  | c :: history, _, h, hfresh =>
    and_congr (vouched_iff h c) (vouched_run_iff history _ (sound_step h c hfresh.1) hfresh.2)

/-- Along every history of calls, with tokens drawn fresh, each removal shows the token of the last dry run of its
    own task, path and flag, in time and not used before, exactly where no removal shows a token that was issued
    for another target whose key is written the same. -/
theorem removals_vouched_iff {history : List Call} (hfresh : Along State.step Fresh .start history) :
    Along State.step Vouched .start history ↔ Along State.step OwnKey .start history :=
  vouched_run_iff history .start sound_start hfresh

/-! ### Keys that tell targets apart -/

/-- The name of the task has no bar before a slash, and the path is absolute. -/
def Target.Plain (t : Target) : Prop := ¬ "|/".toList <:+: t.taskId ∧ t.path.head? = some '/'

/-- Where one task's name goes on behind the other's, it goes on with a bar and a slash. -/
theorem bar_slash_of_longer {a b p q rest : Text} (hb : b = a ++ rest) (hne : rest ≠ []) (hp : p.head? = some '/')
    (h : '|' :: p = rest ++ '|' :: q) : "|/".toList <:+: b := by
  cases rest with
  | nil => exact absurd rfl hne
  | cons c rest =>
    rw [List.cons_append, List.cons.injEq] at h
    obtain ⟨rfl, hrest⟩ := h
    cases rest with
    | nil =>
      rw [hrest, List.nil_append, List.head?_cons] at hp
      exact absurd hp (by decide)
    | cons d rest =>
      rw [hrest, List.cons_append, List.head?_cons, Option.some.injEq] at hp
      exact ⟨a, rest, by rw [hb, hp]; simp⟩

theorem flagText_injective : Function.Injective flagText := by
  intro a b
  cases a <;> cases b <;> simp [flagText]

theorem key_injective {t u : Target} (ht : t.Plain) (hu : u.Plain) (h : t.key = u.key) : t = u := by
  obtain ⟨task, path, recursive⟩ := t
  obtain ⟨task', path', recursive'⟩ := u
  rw [Target.key, Target.key] at h
  obtain ⟨hfront, hflag⟩ := List.append_inj' h (by cases recursive <;> cases recursive' <;> rfl)
  have hrecursive : recursive = recursive' := flagText_injective hflag
  have hpaths : task ++ '|' :: path = task' ++ '|' :: path' := by
    have hbare := List.append_cancel_right hfront
    simpa using hbare
  rcases List.append_eq_append_iff.1 hpaths with ⟨rest, hlong, hrest⟩ | ⟨rest, hlong, hrest⟩
  · by_cases hne : rest = []
    · subst hne
      rw [List.append_nil] at hlong
      rw [List.nil_append, List.cons.injEq] at hrest
      rw [hlong, hrest.2, hrecursive]
    · exact absurd (bar_slash_of_longer hlong hne ht.2 hrest) hu.1
  · by_cases hne : rest = []
    · subst hne
      rw [List.append_nil] at hlong
      rw [List.nil_append, List.cons.injEq] at hrest
      rw [hlong, hrest.2, hrecursive]
    · exact absurd (bar_slash_of_longer hlong hne hu.2 hrest) ht.1

/-- A call for a task whose name has no bar before a slash; what is resolved is absolute. -/
structure Call.Plain (c : Call) : Prop where
  noBar : ¬ "|/".toList <:+: c.taskId
  absolute : ∀ p, (c.resolve p).root = "/".toList

theorem resolved_path {c : Call} {root path : PurePath} (h : c.resolveInSession root = .ok path) :
    ∃ p, path = c.resolve p := by
  simp only [Call.resolveInSession] at h
  split_ifs at h
  exact ⟨_, (Except.ok.inj h).symm⟩

theorem path_examine {c : Call} {report : Report} (h : c.examine = .ok report) :
    ∃ p, report.path = (c.resolve p).toText := by
  rw [Call.examine] at h
  cases hroot : c.sessionRoot with
  | error e =>
    rw [hroot] at h
    exact nomatch h
  | ok root =>
    rw [hroot] at h
    cases hpath : c.resolveInSession root with
    | error e =>
      simp only [bind, Except.bind, hpath] at h
      exact nomatch h
    | ok path =>
      obtain ⟨p, rfl⟩ := resolved_path hpath
      simp only [bind, Except.bind, hpath] at h
      by_cases hsame : c.resolve p = root
      · rw [if_pos hsame] at h
        exact nomatch h
      rw [if_neg hsame] at h
      cases hnode : c.node (c.resolve p) with
      | absent =>
        rw [hnode] at h
        exact nomatch h
      | file size =>
        rw [hnode] at h
        exact ⟨p, (congrArg Report.path (Except.ok.inj h)).symm⟩
      | dir children =>
        simp only [hnode] at h
        split_ifs at h
        all_goals exact ⟨p, (congrArg Report.path (Except.ok.inj h)).symm⟩
      | other =>
        rw [hnode] at h
        exact nomatch h

theorem plain_target {c : Call} (hc : c.Plain) {report : Report} (h : c.examine = .ok report) :
    (c.target report).Plain := by
  refine ⟨hc.noBar, ?_⟩
  obtain ⟨p, hp⟩ := path_examine h
  have hroot := hc.absolute p
  rw [Call.target, hp, PurePath.toText, hroot]
  rfl

/-- RUN: where no task has a bar before a slash in its name every removal is vouched for. -/
theorem vouched_of_plain : ∀ (history : List Call) (s : State), s.Sound →
    (∀ t token at_, .issued t token at_ ∈ s.log → t.Plain) → (∀ c ∈ history, c.Plain) →
    Along State.step Fresh s history → Along State.step Vouched s history
  | [], _, _, _, _, _ => trivial
  | c :: history, s, h, hlog, hplain, hfresh => by
    rw [List.forall_mem_cons] at hplain
    have hown : OwnKey s c := by
      intro report hreport _ _ _ t token at_ hlast
      obtain ⟨hissued, hkey⟩ := mem_of_lastIssued hlast
      exact key_injective (hlog t token at_ hissued) (plain_target hplain.1 hreport) (of_decide_eq_true hkey)
    refine ⟨(vouched_iff h c).2 hown, vouched_of_plain history _ (sound_step h c hfresh.1) ?_ hplain.2 hfresh.2⟩
    intro t token at_ hissued
    rcases step_cases s c with ⟨hstep, -⟩ | ⟨report, hreport, -, -, hstep⟩ | ⟨hstep, -⟩ | ⟨_, _, -, -, -, -, -, hstep⟩
    all_goals rw [hstep] at hissued
    · exact hlog t token at_ hissued
    · rw [List.mem_append, List.mem_singleton, Event.issued.injEq] at hissued
      rcases hissued with hissued | ⟨rfl, -, -⟩
      · exact hlog t token at_ hissued
      · exact plain_target hplain.1 hreport
    · exact hlog t token at_ hissued
    · rw [List.mem_append, List.mem_singleton] at hissued
      exact hlog t token at_ (hissued.resolve_right nofun)

/-! ### Two targets under one key -/

/-- A call where every path is a file of one byte, without links. -/
def fileCall (taskId path : String) (dryRun : Bool) (previewToken fresh : String) : Call where
  taskId := taskId.toList
  path := path.toList
  dryRun := dryRun
  previewToken := previewToken.toList
  artifactsRoot := PurePath.ofText "/arts".toList
  resolve := id
  node := fun _ => .file 1
  deletion := ⟨1, none⟩
  now := 0
  stamp := 0
  fresh := fresh.toList

/-- A dry run in the session `a`, whose token is shown in the other call. -/
theorem fresh_pair (path taskId path' : String)
    (hlog : ∃ t, (State.start.step (fileCall "a" path true "" "t1")).log = [.issued t "t1".toList 0]) :
    Along State.step Fresh .start [fileCall "a" path true "" "t1", fileCall taskId path' false "t1" "t2"] := by
  obtain ⟨t, hlog⟩ := hlog
  refine ⟨nofun, fun t' at_ hissued => ?_, trivial⟩
  rw [hlog, List.mem_singleton, Event.issued.injEq] at hissued
  have hother : "t2".toList ≠ "t1".toList := by decide
  exact hother hissued.2.1

/-- A file is previewed and removed. -/
theorem removals_vouched_plain : Along State.step Vouched .start
    [fileCall "a" "x" true "" "t1", fileCall "a" "x" false "t1" "t2"] := by
  have hlog : (State.start.step (fileCall "a" "x" true "" "t1")).log =
    [.issued ⟨"a".toList, "/arts/a/x".toList, false⟩ "t1".toList 0] := by decide +kernel
  refine (removals_vouched_iff (fresh_pair "x" "a" "x" ⟨_, hlog⟩)).2 ⟨?_, ?_, trivial⟩
  · exact fun _ _ hdry => absurd hdry (by decide)
  · intro report hreport _ _ _ t token at_ hlast
    have hexamine : (fileCall "a" "x" false "t1" "t2").examine =
        .ok ⟨"/arts/a/x".toList, "file".toList, 1, false, none⟩ := by
      rfl
    rw [hexamine, Except.ok.injEq] at hreport
    rw [hlog] at hlast
    have hmem := (mem_of_lastIssued hlast).1
    rw [List.mem_singleton, Event.issued.injEq] at hmem
    rw [hmem.1, ← hreport]
    rfl

/-- A dry run of a file in the session `a`; its token removes a file of the session of `a|/arts/a/x`. -/
theorem removed_unpreviewed : ¬ ∀ history : List Call, Along State.step Fresh .start history →
    Along State.step Vouched .start history := by
  intro h
  have hlog : (State.start.step (fileCall "a" "x|/arts/aartsax/y" true "" "t1")).log =
    [.issued ⟨"a".toList, "/arts/a/x|/arts/aartsax/y".toList, false⟩ "t1".toList 0] := by decide +kernel
  have hvouched := (h [fileCall "a" "x|/arts/aartsax/y" true "" "t1", fileCall "a|/arts/a/x" "y" false "t1" "t2"]
    (fresh_pair "x|/arts/aartsax/y" "a|/arts/a/x" "y" ⟨_, hlog⟩)).2.1
  obtain ⟨at_, hlast, -, -⟩ :=
    hvouched ⟨"/arts/aartsax/y".toList, "file".toList, 1, false, none⟩ rfl (by decide +kernel)
  rw [hlog] at hlast
  have hmem := (mem_of_lastIssued hlast).1
  rw [List.mem_singleton, Event.issued.injEq] at hmem
  exact absurd hmem.1 (by decide +kernel)

end AgentLangraph.Session.RmPreview
