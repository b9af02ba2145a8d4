import AgentLangraph.Guard.Pii
import AgentLangraph.Guard.Prefix
import AgentLangraph.Stream.OutputGuard

/-! Does the guard of the stream agree with the guard of the answer? Both search the same prose for the
    same patterns, the one in every part that is sent, the other in the whole text. A part shows a match
    that the text has not where it ends in the middle of a longer run, or where it ends in code that is
    still open: that code is read as prose.

        part    12345678901234567 8       the id of a person
        text    12345678901234567 890     a long number -/

namespace AgentLangraph.Guard
open PyText Regex AgentLangraph.Stream

/-! ### The places searched -/

def stripPlaces (xs : List (ℕ × Char)) : List (ℕ × Char) :=
  (xs.dropWhile fun x => isSpace x.2).rdropWhile fun x => isSpace x.2

theorem map_snd_stripPlaces (xs : List (ℕ × Char)) :
    (stripPlaces xs).map Prod.snd = strip (xs.map Prod.snd) := by
  have hdrop : ∀ ys : List (ℕ × Char), (ys.dropWhile fun x => isSpace x.2).map Prod.snd =
      (ys.map Prod.snd).dropWhile isSpace := fun ys => by
    rw [List.dropWhile_map]
    rfl
  rw [stripPlaces, List.rdropWhile, List.map_reverse, hdrop, List.map_reverse, hdrop]
  rfl

theorem mem_of_mem_stripPlaces {xs : List (ℕ × Char)} {x : ℕ × Char} (h : x ∈ stripPlaces xs) :
    x ∈ xs :=
  (List.dropWhile_sublist _).subset ((List.rdropWhile_prefix _ _).subset h)

theorem rdropWhile_append {α : Type*} (p : α → Bool) (xs ys : List α) :
    (xs ++ ys).rdropWhile p =
      if ys.rdropWhile p = [] then xs.rdropWhile p else xs ++ ys.rdropWhile p := by
  rw [List.rdropWhile, List.reverse_append, List.dropWhile_append]
  split_ifs with h h' h'
  · rfl
  · rw [List.isEmpty_iff] at h
    exact absurd (by rw [List.rdropWhile, h]; rfl) h'
  · rw [List.rdropWhile, List.reverse_eq_nil_iff] at h'
    exact absurd (List.isEmpty_iff.2 h') h
  · rw [List.reverse_append, List.reverse_reverse]
    rfl

/-- Stripped, a text reads on from its part as before. -/
theorem ReadsOn.strip {n : ℕ} {xs ys : List (ℕ × Char)} (h : ReadsOn n xs ys) :
    ReadsOn n (stripPlaces xs) (stripPlaces ys) := by
  obtain ⟨rest, rfl, hrest⟩ := h
  by_cases hblank : xs.dropWhile (fun x => isSpace x.2) = []
  · have hnil : stripPlaces xs = [] := by rw [stripPlaces, hblank, List.rdropWhile_nil]
    rw [hnil]
    refine ⟨_, rfl, fun x hx hlt => ?_⟩
    rcases List.mem_append.1 (mem_of_mem_stripPlaces hx) with hx | hx
    · exact List.dropWhile_eq_nil_iff.1 hblank x hx
    · exact hrest x hx hlt
  · have hdrop : (xs ++ rest).dropWhile (fun x => isSpace x.2) =
        stripPlaces xs ++ ((xs.dropWhile fun x => isSpace x.2).rtakeWhile (fun x => isSpace x.2) ++
          rest) := by
      rw [List.dropWhile_append, if_neg (by simpa using hblank), ← List.append_assoc, stripPlaces,
        List.rdropWhile_append_rtakeWhile]
    have hself : (stripPlaces xs).rdropWhile (fun x => isSpace x.2) = stripPlaces xs :=
      List.rdropWhile_idempotent _ _
    rw [show stripPlaces (xs ++ rest) = _ from congrArg (List.rdropWhile _) hdrop, rdropWhile_append,
      hself]
    split_ifs
    · exact ⟨[], (List.append_nil _).symm, nofun⟩
    · refine ⟨_, rfl, fun x hx hlt => ?_⟩
      rcases List.mem_append.1 ((List.rdropWhile_prefix _ _).subset hx) with hx | hx
      · exact @List.mem_rtakeWhile_imp _ (fun x => isSpace x.2) _ x hx
      · exact hrest x hx hlt

section
variable (g : OutputGuard)

/-- The places of a text that the rules search. -/
def OutputGuard.scanPlaces (t : Text) : List (ℕ × Char) :=
  if g.proseOnly then stripPlaces (prosePlaces (splitContentSegments t)) else placesFrom 0 t

theorem map_snd_scanPlaces {t : Text} (h : strip t ≠ []) :
    (g.scanPlaces t).map Prod.snd = scanTarget g.proseOnly t := by
  rw [OutputGuard.scanPlaces]
  cases g.proseOnly with
  | true => rw [if_pos rfl, map_snd_stripPlaces, map_snd_prosePlaces, scanTarget_of_prose h, proseText]
  | false => exact map_snd_placesFrom 0 t

theorem strip_ne_nil_of_mem_scanPlaces {t : Text} {x : ℕ × Char} (h : x ∈ g.scanPlaces t)
    (hx : isSpace x.2 = false) : strip t ≠ [] := by
  intro hblank
  rw [OutputGuard.scanPlaces] at h
  cases hprose : g.proseOnly with
  | true =>
    rw [hprose, if_pos rfl, splitContentSegments_eq_nil_iff.2 hblank] at h
    cases h
  | false =>
    rw [hprose, if_neg Bool.false_ne_true] at h
    have hmem : x.2 ∈ t := by
      rw [← map_snd_placesFrom 0 t]
      exact List.mem_map_of_mem h
    rw [strip_eq_nil_iff.1 hblank _ hmem] at hx
    cases hx

/-- A cut at place `n` leaves code of the text open, and the rules search prose only. -/
def OutputGuard.CutsProse (t : Text) (n : ℕ) : Prop := g.proseOnly = true ∧ CutsCode t n

theorem readsOn_of_not_cutsProse {c t : Text} (h : c <+: t) (hcut : ¬g.CutsProse t c.length) :
    ReadsOn c.length (g.scanPlaces c) (g.scanPlaces t) := by
  rw [OutputGuard.scanPlaces, OutputGuard.scanPlaces]
  split_ifs with hprose
  · exact (readsOn_of_not_cutsCode h fun hcode => hcut ⟨hprose, hcode⟩).strip
  · obtain ⟨s, rfl⟩ := h
    refine ⟨placesFrom c.length s, ?_, fun x hx hlt => absurd (le_of_mem_placesFrom hx) (not_le.2 hlt)⟩
    rw [placesFrom_append, Nat.zero_add]

/-! ### Matches -/

/-- A pattern occurs in what the rules search. -/
def OutputGuard.HasMatch (t : Text) : Prop :=
  ∃ p ∈ piiPatterns g.tables, ∃ a m b, scanTarget g.proseOnly t = a ++ m ++ b ∧ p.2.Occurs a m b

/-- What the rules search ends in an occurrence. -/
def OutputGuard.EndsInMatch (t : Text) : Prop :=
  ∃ p ∈ piiPatterns g.tables, ∃ a m, scanTarget g.proseOnly t = a ++ m ∧ p.2.Occurs a m []

variable {g}

theorem hasMatch_of_endsInMatch {t : Text} (h : g.EndsInMatch t) : g.HasMatch t := by
  obtain ⟨p, hp, a, m, ht, hocc⟩ := h
  exact ⟨p, hp, a, m, [], by rw [ht, List.append_nil], hocc⟩

theorem scanPii_eq_nil_iff {t : Text} : scanPii g.tables g.proseOnly t = [] ↔ ¬g.HasMatch t := by
  rw [scanPii, List.filterMap_eq_nil_iff, OutputGuard.HasMatch]
  push Not
  refine forall₂_congr fun p _ => ?_
  rw [Option.map_eq_none_iff, ← Option.not_isSome_iff_eq_none, Pattern.search_isSome_iff]
  push Not
  rfl

theorem Cuttable.last {pat : Pattern} (h : Cuttable pat) {a m b : Text} (hocc : pat.Occurs a m b) :
    ∃ m' c, m = m' ++ [c] ∧ isSpace c = false := by
  obtain ⟨c, hc, hspace⟩ := h.endsIn m hocc.1
  obtain ⟨m', rfl⟩ := List.getLast?_eq_some_iff.1 hc
  exact ⟨m', c, rfl, hspace⟩

/-- CUT: an occurrence stays one where the text is cut behind it. -/
theorem Cuttable.occurs_cut {pat : Pattern} (h : Cuttable pat) {a m b b' : Text}
    (hocc : pat.Occurs a m (b ++ b')) : pat.Occurs a m b := by
  obtain ⟨m', c, rfl, -⟩ := h.last hocc
  obtain ⟨hlang, hopens, hcloses⟩ := hocc
  have hhead : ∀ s : Text, (m' ++ [c] ++ s).head? = (m' ++ [c]).head? := fun s =>
    List.head?_append_of_ne_nil _ (by simp)
  rw [hhead] at hopens
  refine ⟨hlang, by rwa [hhead], ?_⟩
  cases b with
  | nil =>
    rw [← List.append_assoc, List.getLast?_concat]
    exact h.closes _ c hlang (List.getLast?_concat ..)
  | cons d ds => exact hcloses

/-- An occurrence that does not end the text stays one in a longer text. -/
theorem occurs_extend {pat : Pattern} {a m b : Text} (hb : b ≠ []) (hocc : pat.Occurs a m b)
    (b' : Text) : pat.Occurs a m (b ++ b') := by
  obtain ⟨hlang, hopens, hcloses⟩ := hocc
  have hhead : (m ++ (b ++ b')).head? = (m ++ b).head? := by
    rw [← List.append_assoc]
    exact List.head?_append_of_ne_nil _ (by simp [hb])
  refine ⟨hlang, by rwa [hhead], ?_⟩
  rwa [List.head?_append_of_ne_nil _ hb]

theorem strip_ne_nil_of_hasMatch {t : Text} (h : g.HasMatch t) : strip t ≠ [] := by
  intro hblank
  obtain ⟨p, hp, a, m, b, ht, hocc⟩ := h
  obtain ⟨m', c, rfl, hc⟩ := (cuttable_of_mem g.tables hp).last hocc
  rw [scanTarget_of_blank _ hblank] at ht
  have hspace := strip_eq_nil_iff.1 hblank c (by rw [ht]; simp)
  rw [hc] at hspace
  cases hspace

/-- The rules find what the scan of the stream finds. -/
theorem ruleScan_eq_nil_iff {t : Text} : g.ruleScan t = [] ↔ ¬g.HasMatch t := by
  rw [OutputGuard.ruleScan]
  split_ifs with hblank
  · exact iff_of_true rfl fun h => strip_ne_nil_of_hasMatch h hblank
  · exact scanPii_eq_nil_iff

theorem strip_ne_nil_of_part {c t : Text} (h : c <+: t) (hc : strip c ≠ []) : strip t ≠ [] :=
  fun ht => hc (strip_eq_nil_iff.2 fun x hx => strip_eq_nil_iff.1 ht x (h.subset hx))

/-- Where the text reads on and has no match, a part has one only where it ends in it. -/
theorem hasMatch_iff_endsInMatch {c t : Text} (hpre : c <+: t)
    (hreads : ReadsOn c.length (g.scanPlaces c) (g.scanPlaces t)) (hclean : ¬g.HasMatch t) :
    g.HasMatch c ↔ g.EndsInMatch c := by
  refine ⟨fun h => ?_, hasMatch_of_endsInMatch⟩
  have hstrip := strip_ne_nil_of_hasMatch h
  obtain ⟨p, hp, a, m, b, hc, hocc⟩ := h
  cases b with
  | nil =>
    rw [List.append_nil] at hc
    exact ⟨p, hp, a, m, hc, hocc⟩
  | cons d ds =>
    -- the text has the occurrence as well
    obtain ⟨rest, hrest, -⟩ := hreads
    refine absurd ⟨p, hp, a, m, d :: ds ++ rest.map Prod.snd, ?_,
      occurs_extend (List.cons_ne_nil _ _) hocc _⟩ hclean
    rw [← map_snd_scanPlaces g (strip_ne_nil_of_part hpre hstrip), hrest, List.map_append,
      map_snd_scanPlaces g hstrip, hc, List.append_assoc]

/-- `evaluate_output` flags the match that the search of a pattern finds at `i` to `j`. -/
def OutputGuard.Flags (g : OutputGuard) (t label : Text) (i j : ℕ) : Prop :=
  ∃ pat, (label, pat) ∈ piiPatterns g.tables ∧ pat.search (scanTarget g.proseOnly t) = some (i, j)

/-- The places of a match. -/
def OutputGuard.matchPlaces (g : OutputGuard) (t : Text) (i j : ℕ) : List (ℕ × Char) :=
  ((g.scanPlaces t).take j).drop i

/-- The first `n` characters of the text hold all of `xs`. -/
def Covers (n : ℕ) (xs : List (ℕ × Char)) : Prop := ∀ x ∈ xs, x.1 < n

theorem hasMatch_of_flags {t label : Text} {i j : ℕ} (h : g.Flags t label i j) : g.HasMatch t := by
  obtain ⟨pat, hp, hsearch⟩ := h
  obtain ⟨a, m, b, ht, hocc, -⟩ := Pattern.search_some hsearch
  exact ⟨(label, pat), hp, a, m, b, ht, hocc⟩

/-- What is flagged fails the answer, under its label. -/
theorem evaluateOutput_of_flags {t label : Text} {i j : ℕ} (h : g.Flags t label i j)
    (llmReview : Option Bool) : (g.evaluateOutput t llmReview).passed = false ∧
      "pii:".toList ++ label ∈ (g.evaluateOutput t llmReview).issues := by
  have hmatch := hasMatch_of_flags h
  have hrules : g.ruleScan t ≠ [] := fun hnil => ruleScan_eq_nil_iff.1 hnil hmatch
  rw [OutputGuard.evaluateOutput_of_ruleScan hrules]
  refine ⟨rfl, ?_⟩
  obtain ⟨pat, hp, hsearch⟩ := h
  rw [OutputGuard.ruleScan, if_neg (strip_ne_nil_of_hasMatch hmatch)]
  exact List.mem_filterMap.2 ⟨(label, pat), hp, by rw [hsearch]; rfl⟩

/-- Where the text reads on, a part that holds a match of it has a match. -/
theorem hasMatch_of_covers {c t label : Text} {i j : ℕ}
    (hreads : ReadsOn c.length (g.scanPlaces c) (g.scanPlaces t)) (hflags : g.Flags t label i j)
    (hcovers : Covers c.length (g.matchPlaces t i j)) : g.HasMatch c := by
  have htext := map_snd_scanPlaces g (strip_ne_nil_of_hasMatch (hasMatch_of_flags hflags))
  obtain ⟨pat, hp, hsearch⟩ := hflags
  obtain ⟨a, m, b, ht, hocc, rfl, rfl⟩ := Pattern.search_some hsearch
  have hcut := cuttable_of_mem g.tables hp
  obtain ⟨m', d, rfl, hspace⟩ := hcut.last hocc
  -- the match, place by place
  rw [ht, List.map_eq_append_iff] at htext
  obtain ⟨front, zs, hplaces, hfront, rfl⟩ := htext
  obtain ⟨xs, ys, rfl, rfl, hys⟩ := List.map_eq_append_iff.1 hfront
  obtain ⟨ys', last, rfl, rfl, hlast⟩ := List.map_eq_append_iff.1 hys
  obtain ⟨x, rfl⟩ : ∃ x, last = [x] :=
    List.length_eq_one_iff.1 (by simpa using congrArg List.length hlast)
  have hx : x.2 = d := by simpa using hlast
  have hmem : x ∈ g.matchPlaces t (xs.map Prod.snd).length
      (xs.map Prod.snd ++ (ys'.map Prod.snd ++ [d])).length := by
    rw [OutputGuard.matchPlaces, hplaces]
    have htake : (xs.map Prod.snd ++ (ys'.map Prod.snd ++ [d])).length =
        (xs ++ (ys' ++ [x])).length := by simp
    rw [htake, List.take_left, List.length_map, List.drop_left]
    simp
  rw [hplaces, ← List.append_assoc] at hreads
  obtain ⟨us, us', hc, rfl⟩ := hreads.holds (hcovers x hmem) (by rw [hx]; exact hspace)
  have hstrip : strip c ≠ [] :=
    @strip_ne_nil_of_mem_scanPlaces g c x (by rw [hc]; simp) (by rw [hx]; exact hspace)
  rw [List.map_append] at hocc
  refine ⟨(label, pat), hp, _, _, us.map Prod.snd, ?_, hcut.occurs_cut hocc⟩
  rw [← map_snd_scanPlaces g hstrip, hc]
  simp [hx]

end

/-! ### The guard of the stream -/

/-- The guard of a stream whose answer `g` guards. -/
def OutputGuard.streamGuard (g : OutputGuard) (enabled : Bool) : GuardConfig Char Text where
  enabled
  scan := scanPii g.tables g.proseOnly

/-- The texts streamed of an answer, each a part of the next. -/
structure Streamed (t : Text) (parts : List Text) : Prop where
  grow : parts.Pairwise (· <+: ·)
  part : ∀ c ∈ parts, c <+: t

instance (t : Text) (parts : List Text) : Decidable (Streamed t parts) :=
  decidable_of_iff (parts.Pairwise (· <+: ·) ∧ ∀ c ∈ parts, c <+: t)
    ⟨fun h => ⟨h.1, h.2⟩, fun h => ⟨h.grow, h.part⟩⟩

/-- The guards agree: no part of an answer that passes the rules is stopped, and no part that is sent
    holds the whole of a match flagged in the answer. -/
structure Agrees (g : OutputGuard) (enabled : Bool) (t : Text) (parts : List Text) : Prop where
  passes : g.ruleScan t = [] → ∀ seen c later, parts = seen ++ c :: later →
    ¬Blocks (g.streamGuard enabled) seen c
  withholds : ∀ label i j, g.Flags t label i j → ∀ seen c later, parts = seen ++ c :: later →
    ¬Blocks (g.streamGuard enabled) seen c → ¬Covers c.length (g.matchPlaces t i j)

/-- Where an answer passes, no part ends in a match, and none that leaves code open shows one. Where it
    is flagged, the guard is on for what holds the match, and a part that leaves code open has shown a
    match by then. -/
structure Settled (g : OutputGuard) (enabled : Bool) (t : Text) (parts : List Text) : Prop where
  clean : enabled = true → ¬g.HasMatch t → ∀ c ∈ parts,
    (¬g.CutsProse t c.length → ¬g.EndsInMatch c) ∧ (g.CutsProse t c.length → ¬g.HasMatch c)
  caught : ∀ label i j, g.Flags t label i j → ∀ seen c later, parts = seen ++ c :: later →
    Covers c.length (g.matchPlaces t i j) →
      enabled = true ∧ (g.CutsProse t c.length → ∃ q ∈ seen ++ [c], g.HasMatch q)

section
variable {g : OutputGuard} {enabled : Bool} {t : Text} {parts : List Text}

/-- STOPPED: the guard of the stream stops what has a match, and all that comes after it. -/
theorem blocks_iff_hasMatch (h : Streamed t parts) (henabled : enabled = true) {seen later : List Text}
    {c : Text} (hparts : parts = seen ++ c :: later) :
    Blocks (g.streamGuard enabled) seen c ↔ ∃ q ∈ seen ++ [c], g.HasMatch q := by
  have hgrow : (seen ++ [c]).Pairwise (· <+: ·) := by
    refine h.grow.sublist ?_
    rw [hparts]
    exact (List.Sublist.refl seen).append (by simp)
  have hempty : (g.streamGuard enabled).scan [] = [] :=
    scanPii_eq_nil_iff.2 fun hmatch => strip_ne_nil_of_hasMatch hmatch rfl
  rw [blocks_iff henabled hempty hgrow]
  refine exists_congr fun q => and_congr_right fun _ => ?_
  exact (not_congr scanPii_eq_nil_iff).trans not_not

/-- AGREE: the guards agree exactly on the streams that are settled. -/
theorem agrees_iff (h : Streamed t parts) : Agrees g enabled t parts ↔ Settled g enabled t parts := by
  have henabled_of : ∀ {seen c}, Blocks (g.streamGuard enabled) seen c → enabled = true :=
    fun hblocks => by
      by_contra hoff
      exact not_blocks_of_disabled _ (Bool.eq_false_iff.2 hoff) _ _ hblocks
  constructor
  · intro hagree
    constructor
    · intro henabled hclean c hc
      obtain ⟨seen, later, hparts⟩ := List.append_of_mem hc
      have hno : ¬g.HasMatch c := fun hmatch =>
        hagree.passes (ruleScan_eq_nil_iff.2 hclean) seen c later hparts
          ((blocks_iff_hasMatch h henabled hparts).2 ⟨c, by simp, hmatch⟩)
      exact ⟨fun _ hends => hno (hasMatch_of_endsInMatch hends), fun _ => hno⟩
    · intro label i j hflags seen c later hparts hcovers
      have hblocks : Blocks (g.streamGuard enabled) seen c := by
        by_contra hsent
        exact hagree.withholds label i j hflags seen c later hparts hsent hcovers
      have henabled := henabled_of hblocks
      exact ⟨henabled, fun _ => (blocks_iff_hasMatch h henabled hparts).1 hblocks⟩
  · intro hsettled
    constructor
    · intro hpass seen c later hparts hblocks
      have hclean := ruleScan_eq_nil_iff.1 hpass
      have henabled := henabled_of hblocks
      obtain ⟨q, hq, hmatch⟩ := (blocks_iff_hasMatch h henabled hparts).1 hblocks
      have hmem : q ∈ parts := by
        rw [List.mem_append, List.mem_singleton] at hq
        rw [hparts, List.mem_append, List.mem_cons]
        exact hq.imp_right Or.inl
      obtain ⟨hread, hcut⟩ := hsettled.clean henabled hclean q hmem
      by_cases hcuts : g.CutsProse t q.length
      · exact hcut hcuts hmatch
      · have hpre := h.part q hmem
        exact hread hcuts ((hasMatch_iff_endsInMatch hpre (readsOn_of_not_cutsProse g hpre hcuts)
          hclean).1 hmatch)
    · intro label i j hflags seen c later hparts hsent hcovers
      obtain ⟨henabled, hopen⟩ := hsettled.caught label i j hflags seen c later hparts hcovers
      refine hsent ((blocks_iff_hasMatch h henabled hparts).2 ?_)
      by_cases hcuts : g.CutsProse t c.length
      · exact hopen hcuts
      · have hpre := h.part c (by rw [hparts]; simp)
        exact ⟨c, by simp,
          hasMatch_of_covers (readsOn_of_not_cutsProse g hpre hcuts) hflags hcovers⟩

/-- The tables cut down to ASCII. -/
def asciiTables : CharTables where
  digit := between '0' '9'
  word c := isAlnum c || c == '_'
  digit_ascii c hge hle := by
    rw [between, decide_eq_true hge, decide_eq_true hle]
    rfl
  word_of_digit c h := by rw [isAlnum, h, Bool.or_true, Bool.true_or]
  digit_not_space _ h := not_space_of_between (by decide) (by decide) h

def asciiGuard : OutputGuard where
  tables := asciiTables
  review _ := { passed := true, issues := [] }

/-- A mail address is held back, however it is cut. -/
theorem address_agrees : Agrees asciiGuard true "ask `x` at a@b.com".toList
    ["ask `x` at a@".toList, "ask `x` at a@b.co".toList, "ask `x` at a@b.com".toList] := by
  have hclosed : ∀ c ∈ ["ask `x` at a@".toList, "ask `x` at a@b.co".toList,
      "ask `x` at a@b.com".toList], ¬CutsCode "ask `x` at a@b.com".toList c.length := by decide
  refine (agrees_iff (by decide)).2 ⟨fun _ hclean => ?_, fun _ _ _ _ seen c later hparts _ => ?_⟩
  · exact absurd (scanPii_eq_nil_iff.2 hclean) (by decide)
  · exact ⟨rfl, fun hcuts => absurd hcuts.2 (hclosed c (by rw [hparts]; simp))⟩

/-- A long number is stopped as the id of a person, and an address in inline code gets out where the
    backtick behind it turns out to open a fence. -/
theorem guards_disagree :
    ¬Agrees asciiGuard true "12345678901234567890".toList ["123456789012345678".toList] ∧
      ¬Agrees asciiGuard true "`a@b.com```x```".toList ["`a@b.com`".toList] := by
  constructor
  · intro h
    exact h.passes (by decide) [] _ [] rfl (by unfold Blocks; decide)
  · intro h
    exact h.withholds "email".toList 1 8 ⟨emailPattern, List.mem_cons_self, by decide⟩ [] _ [] rfl
      (by unfold Blocks; decide) (by unfold Covers; decide)

end

end AgentLangraph.Guard
