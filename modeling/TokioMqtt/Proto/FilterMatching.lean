/-
Matching by levels: what MQTT says a filter matches, what the expression `from_string` makes of the filter
matches, and where the two differ. A `+` is one or more characters in the expression, the slash before a `#`
is optional whatever follows it, and what a `#` takes in ends at a line break.
-/
import TokioMqtt.Proto.FilterGrammar

namespace TokioMqtt.Proto

open Regex Separated

/-! ## Two readings of a filter -/

/-- A level of a filter matches a level of a topic: `+` matches any level, the empty one too. -/
def MqttLevel (l m : List Char) : Prop := l = ['+'] ∨ l = m

/-- A filter matches a topic, both cut into levels; a `#` stands for any further levels, or none. -/
inductive MqttMatches : List (List Char) → List (List Char) → Prop
  | exact {fs ts : List (List Char)} (hno : ['#'] ∉ fs) (h : List.Forall₂ MqttLevel fs ts) : MqttMatches fs ts
  | multi {fs ts rest : List (List Char)} (h : List.Forall₂ MqttLevel fs ts) :
    MqttMatches (fs ++ [['#']]) (ts ++ rest)

/-- `from_string` accepts the filter, and `match_topic` is the matching of MQTT. -/
def MatchesByLevels (f t : String) : Prop :=
  ∃ filter, TopicFilter.fromString f = .ok filter ∧
    (filter.matchTopic t = true ↔ MqttMatches (levelsOf f) (levelsOf t))

/-- A level as the expression reads it: `[^/]+` is not empty. -/
def ExprLevel (l m : List Char) : Prop := if l = ['+'] then m ≠ [] else l = m

/-- What the expression of a filter matches. After the level before a `#` any text may follow, on the same level
too, but no line break. -/
inductive ExprMatches : List (List Char) → List (List Char) → Prop
  | exact {fs ts : List (List Char)} (hno : ['#'] ∉ fs) (h : List.Forall₂ ExprLevel fs ts) : ExprMatches fs ts
  | all (ts : List (List Char)) : ExprMatches [['#']] ts
  | multi {fs ts rest : List (List Char)} {p x : List Char} (h : List.Forall₂ ExprLevel fs (ts ++ [p]))
    (hbreak : ∀ m ∈ x :: rest, '\n' ∉ m) : ExprMatches (fs ++ [['#']]) (ts ++ (p ++ x) :: rest)

/-- The filters and topics on which the readings differ: a `+` stands at an empty level; a line break is in what
the `#` takes in; the level before the `#` is a proper beginning of the topic's, and no line break follows. -/
inductive Misread : List (List Char) → List (List Char) → Prop
  | emptyLevel {fs ts : List (List Char)} (h : MqttMatches fs ts) (hempty : (['+'], []) ∈ fs.zip ts) : Misread fs ts
  | lineBreak {fs ts rest : List (List Char)} (hne : fs ≠ []) (h : List.Forall₂ MqttLevel fs ts)
    (hbreak : ∃ m ∈ rest, '\n' ∈ m) : Misread (fs ++ [['#']]) (ts ++ rest)
  | longerLevel {fs ts rest : List (List Char)} {l x : List Char} (h : List.Forall₂ ExprLevel fs ts)
    (hl : l ≠ ['+']) (hx : x ≠ []) (hbreak : ∀ m ∈ x :: rest, '\n' ∉ m) :
    Misread (fs ++ [l, ['#']]) (ts ++ (l ++ x) :: rest)

/-! ## The expression -/

/-- A level without a `#`, and with a `+` only as the whole of it. -/
structure PlainLevel (l : List Char) : Prop where
  slash : '/' ∉ l
  plus : '+' ∈ l → l = ['+']
  hash : '#' ∉ l

section
variable {n : Nat} {s t l : List Char} {before : Expr}

theorem mem_level_plain (hl : PlainLevel l) : t ∈ ends n (TopicFilter.level before l) s ↔
    ∃ u ∈ ends n before s, ∃ m, ExprLevel l m ∧ '/' ∉ m ∧ u = m ++ t := by
  unfold TopicFilter.level ExprLevel
  by_cases hm : '+' ∈ l
  · rw [if_pos hm, mem_ends_seq]
    simp only [mem_ends_plus_chars, CharClass.mem, decide_eq_true_eq, if_pos (hl.plus hm)]
    refine exists_congr fun u => and_congr_right fun _ => exists_congr fun m => and_congr_right fun _ => ?_
    exact and_congr_left' ⟨fun h hs => h _ hs rfl, fun h c hc hs => h (hs ▸ hc)⟩
  · have hne : l ≠ ['+'] := by
      rintro rfl
      exact hm (by simp)
    rw [if_neg hm, if_neg hl.hash, mem_ends_seq]
    simp only [mem_ends_lits, if_neg hne]
    refine exists_congr fun u => and_congr_right fun _ => ?_
    constructor
    · intro hu
      exact ⟨l, rfl, hl.slash, hu⟩
    · rintro ⟨_, rfl, -, hu⟩
      exact hu

/-- The levels after the first, told by what those after them match. -/
theorem mem_levels {back : List (List Char)} {Q : List Char → Prop}
    (hback : ∀ s t, t ∈ ends n (TopicFilter.levels back) s ↔ t = [] ∧ Q s) :
    ∀ {ls : List (List Char)} {s t : List Char}, (∀ l ∈ ls, PlainLevel l) →
      (t ∈ ends n (TopicFilter.levels (ls ++ back)) s ↔ t = [] ∧ ∃ ms r,
        List.Forall₂ ExprLevel ls ms ∧ (∀ m ∈ ms, '/' ∉ m) ∧ s = (ms.map ('/' :: ·)).flatten ++ r ∧ Q r)
  | [], s, t, _ => by
    rw [List.nil_append, hback]
    refine and_congr_right fun _ => ⟨fun h => ⟨[], s, .nil, nofun, rfl, h⟩, ?_⟩
    rintro ⟨ms, r, h, -, rfl, hr⟩
    cases h
    exact hr
  | l :: ls, s, t, h => by
    obtain ⟨hl, hls⟩ := List.forall_mem_cons.1 h
    rw [List.cons_append, TopicFilter.levels, mem_ends_seq]
    constructor
    · rintro ⟨u, hu, ht⟩
      obtain ⟨v, hv, m, hm, hslash, rfl⟩ := (mem_level_plain hl).1 hu
      obtain ⟨rfl, ms, r, hms, hslashes, rfl, hr⟩ := (mem_levels hback hls).1 ht
      rw [mem_ends_lit.1 hv]
      exact ⟨rfl, m :: ms, r, .cons hm hms, List.forall_mem_cons.2 ⟨hslash, hslashes⟩, by simp, hr⟩
    · rintro ⟨rfl, _, r, hlms, hslashes, rfl, hr⟩
      obtain ⟨m, ms, hm, hms, rfl⟩ := List.forall₂_cons_left_iff.1 hlms
      obtain ⟨hslash, hslashes⟩ := List.forall_mem_cons.1 hslashes
      refine ⟨(ms.map ('/' :: ·)).flatten ++ r, (mem_level_plain hl).2 ⟨_, mem_ends_lit.2 rfl, m, hm, hslash, ?_⟩,
        (mem_levels hback hls).2 ⟨rfl, ms, r, hms, hslashes, rfl, hr⟩⟩
      simp

end

/-- The whole expression, anchored at both ends. -/
theorem isMatch_matchExpr {l : List Char} {ls back : List (List Char)} {Q : List Char → Prop} {text : List Char}
    (hback : ∀ s t, t ∈ ends text.length (TopicFilter.levels back) s ↔ t = [] ∧ Q s)
    (h : ∀ k ∈ l :: ls, PlainLevel k) :
    isMatch (TopicFilter.matchExpr (l :: ls ++ back)) text = true ↔ ∃ ms r,
      List.Forall₂ ExprLevel (l :: ls) ms ∧ (∀ m ∈ ms, '/' ∉ m) ∧ text = ['/'].intercalate ms ++ r ∧ Q r := by
  obtain ⟨hl, hls⟩ := List.forall_mem_cons.1 h
  rw [isMatch_iff, List.cons_append, TopicFilter.matchExpr]
  constructor
  · rintro ⟨s, t, hs, ht⟩
    obtain ⟨u, hu, ht⟩ := mem_ends_seq.1 ht
    obtain ⟨v, hv, m, hm, hslash, rfl⟩ := (mem_level_plain hl).1 hu
    obtain ⟨-, ms, r, hms, hslashes, rfl, hr⟩ := (mem_levels hback hls).1 ht
    -- the anchor is passed at the front of the whole text only
    obtain ⟨hlen, rfl⟩ := mem_ends_start.1 hv
    refine ⟨m :: ms, r, .cons hm hms, List.forall_mem_cons.2 ⟨hslash, hslashes⟩, ?_, hr⟩
    rw [intercalate_cons, List.append_assoc, hs.eq_of_length hlen]
  · rintro ⟨_, r, hlms, hslashes, htext, hr⟩
    obtain ⟨m, ms, hm, hms, rfl⟩ := List.forall₂_cons_left_iff.1 hlms
    obtain ⟨hslash, hslashes⟩ := List.forall_mem_cons.1 hslashes
    rw [intercalate_cons, List.append_assoc] at htext
    refine ⟨text, [], List.suffix_refl _, mem_ends_seq.2 ⟨(ms.map ('/' :: ·)).flatten ++ r, ?_, ?_⟩⟩
    · exact (mem_level_plain hl).2 ⟨text, mem_ends_start.2 ⟨rfl, rfl⟩, m, hm, hslash, htext⟩
    · exact (mem_levels hback hls).2 ⟨rfl, ms, r, hms, hslashes, rfl, hr⟩

theorem mem_levels_nil {n : Nat} (s t : List Char) : t ∈ ends n (TopicFilter.levels []) s ↔ t = [] ∧ s = [] :=
  mem_ends_stop.trans and_comm

/-- A `#` after another level: the slash is optional, and what follows it is on one line. -/
theorem mem_levels_hash {n : Nat} (s t : List Char) :
    t ∈ ends n (TopicFilter.levels [['#']]) s ↔ t = [] ∧ '\n' ∉ s := by
  have hlevel : TopicFilter.level (.lit '/') ['#'] = .seq (.opt (.lit '/')) (.star (.chars .any)) := by decide
  rw [TopicFilter.levels, TopicFilter.levels, mem_ends_seq, hlevel]
  simp only [mem_ends_seq, mem_ends_opt, mem_ends_lit, mem_ends_star_chars, mem_ends_stop, CharClass.mem,
    decide_eq_true_eq]
  constructor
  · rintro ⟨u, ⟨v, hv, w, hw, rfl⟩, rfl, rfl⟩
    have hno : '\n' ∉ w := fun h => hw _ h rfl
    rcases hv with h | rfl
    · rw [← h]; simpa using hno
    · simpa using hno
  · rintro ⟨rfl, hs⟩
    exact ⟨[], ⟨s, .inl rfl, s, fun c hc h => hs (h ▸ hc), (List.append_nil s).symm⟩, rfl, rfl⟩

/-- A `#` alone matches everything: its `?` makes the anchor optional. -/
theorem isMatch_hash (text : List Char) : isMatch (TopicFilter.matchExpr [['#']]) text = true := by
  have hlevel : TopicFilter.level .start ['#'] = .seq (.opt .start) (.star (.chars .any)) := by decide
  rw [isMatch_iff, TopicFilter.matchExpr, TopicFilter.levels, hlevel]
  refine ⟨[], [], List.nil_suffix, mem_ends_seq.2 ⟨[], mem_ends_seq.2 ⟨[], mem_ends_opt.2 (.inl rfl), ?_⟩, ?_⟩⟩
  · exact mem_ends_star_chars.2 ⟨[], nofun, rfl⟩
  · exact mem_ends_stop.2 ⟨rfl, rfl⟩

/-! ## The expression on the levels of a topic -/

theorem ValidFilter.levels_cases {f : String} (h : ValidFilter f) :
    (∀ l ∈ levelsOf f, PlainLevel l) ∨ ∃ front, levelsOf f = front ++ [['#']] ∧ ∀ l ∈ front, PlainLevel l := by
  obtain ⟨front, last, hls, -, hfront, hlast⟩ := levelsOf_eq f
  have hplain : ∀ l ∈ front, PlainLevel l := by
    intro l hl
    refine ⟨hfront l hl, h.plus l (by rw [hls]; simp [hl]), fun hm => ?_⟩
    obtain ⟨u, v, rfl⟩ := List.append_of_mem hl
    obtain ⟨-, hback⟩ := h.hash u l (v ++ [last]) (by rw [hls]; simp) hm
    simp at hback
  by_cases hm : '#' ∈ last
  · obtain ⟨rfl, -⟩ := h.hash front last [] hls hm
    exact .inr ⟨front, hls, hplain⟩
  · left
    rw [hls, List.forall_mem_append, List.forall_mem_singleton]
    exact ⟨hplain, hlast, h.plus last (by rw [hls]; simp), hm⟩

/-- A text cut behind a number of levels, which may be inside one. -/
theorem cut_iff {fs : List (List Char)} (hne : fs ≠ []) (text : List Char) :
    (∃ ms r, List.Forall₂ ExprLevel fs ms ∧ (∀ m ∈ ms, '/' ∉ m) ∧ text = ['/'].intercalate ms ++ r ∧ '\n' ∉ r) ↔
      ∃ ts p x rest, text.splitOn '/' = ts ++ (p ++ x) :: rest ∧ List.Forall₂ ExprLevel fs (ts ++ [p]) ∧
        ∀ m ∈ x :: rest, '\n' ∉ m := by
  constructor
  · rintro ⟨ms, r, hms, hslash, rfl, hr⟩
    rcases List.eq_nil_or_concat' ms with rfl | ⟨ts, p, rfl⟩
    · cases hms
      exact absurd rfl hne
    · -- `r` begins inside the level that `p` begins
      obtain ⟨x, rest, hparts⟩ := List.exists_cons_of_ne_nil (List.splitOn_ne_nil '/' r)
      refine ⟨ts, p, x, rest, ?_, hms, fun m hm hbreak => hr ?_⟩
      · rw [splitOn_joined_append (fun l hl => hslash l (by simp [hl])) (hslash p (by simp)), hparts]
        rfl
      · rw [mem_iff_mem_part (a := '/') (by decide), hparts]
        exact ⟨m, hm, hbreak⟩
  · rintro ⟨ts, p, x, rest, hparts, hms, hbreak⟩
    have hslash : ∀ m ∈ ts ++ (p ++ x) :: rest, '/' ∉ m := (splitOn_eq_iff.1 hparts).2.2
    have hp : '/' ∉ p := fun h => hslash (p ++ x) (by simp) (by simp [h])
    have hts : ∀ m ∈ ts, '/' ∉ m := fun m hm => hslash m (by simp [hm])
    have hr : (['/'].intercalate (x :: rest)).splitOn '/' = x :: rest := by
      refine List.splitOn_intercalate '/' (List.forall_mem_cons.2 ⟨fun h => ?_, fun m hm => ?_⟩) nofun
      · exact hslash (p ++ x) (by simp) (by simp [h])
      · exact hslash m (by simp [hm])
    refine ⟨ts ++ [p], ['/'].intercalate (x :: rest), hms, ?_, ?_, fun h => ?_⟩
    · simpa [or_imp, forall_and] using ⟨hts, hp⟩
    · -- both have the same levels
      have hsame : text.splitOn '/' = (['/'].intercalate (ts ++ [p]) ++ ['/'].intercalate (x :: rest)).splitOn '/' := by
        rw [splitOn_joined_append hts hp, hr, hparts]
        rfl
      have hjoined := congrArg ['/'].intercalate hsame
      rwa [List.intercalate_splitOn, List.intercalate_splitOn] at hjoined
    · rw [mem_iff_mem_part (a := '/') (by decide), hr] at h
      obtain ⟨m, hm, hmem⟩ := h
      exact hbreak m hm hmem

section
variable {fs ts : List (List Char)}

theorem hash_not_mem (h : ∀ l ∈ fs, PlainLevel l) : ['#'] ∉ fs := fun hm => (h _ hm).hash (by simp)

theorem plain_ne_hash (h : ∀ l ∈ fs, PlainLevel l) (gs : List (List Char)) : fs ≠ gs ++ [['#']] := by
  rintro rfl
  exact hash_not_mem h (by simp)

theorem exprMatches_plain (h : ∀ l ∈ fs, PlainLevel l) : ExprMatches fs ts ↔ List.Forall₂ ExprLevel fs ts := by
  refine ⟨fun hm => ?_, .exact (hash_not_mem h)⟩
  generalize hfs : fs = gs at hm
  cases hm with
  | exact _ hm => exact hm
  | all => exact absurd hfs (plain_ne_hash h [])
  | multi => exact absurd hfs (plain_ne_hash h _)

theorem exprMatches_hash (hne : fs ≠ []) : ExprMatches (fs ++ [['#']]) ts ↔ ∃ us p x rest,
    ts = us ++ (p ++ x) :: rest ∧ List.Forall₂ ExprLevel fs (us ++ [p]) ∧ ∀ m ∈ x :: rest, '\n' ∉ m := by
  constructor
  · intro hm
    generalize hgs : fs ++ [['#']] = gs at hm
    cases hm with
    | exact hno hm => exact absurd (by rw [← hgs]; simp) hno
    | all => exact absurd (by simpa using hgs) hne
    | multi hm hbreak =>
      obtain ⟨rfl, -⟩ := List.append_inj' hgs rfl
      exact ⟨_, _, _, _, rfl, hm, hbreak⟩
  · rintro ⟨us, p, x, rest, rfl, hm, hbreak⟩
    exact .multi hm hbreak

theorem mqttMatches_plain (h : ∀ l ∈ fs, PlainLevel l) : MqttMatches fs ts ↔ List.Forall₂ MqttLevel fs ts := by
  refine ⟨fun hm => ?_, .exact (hash_not_mem h)⟩
  generalize hfs : fs = gs at hm
  cases hm with
  | exact _ hm => exact hm
  | multi => exact absurd hfs (plain_ne_hash h _)

theorem mqttMatches_hash : MqttMatches (fs ++ [['#']]) ts ↔
    ∃ us rest, ts = us ++ rest ∧ List.Forall₂ MqttLevel fs us := by
  constructor
  · intro hm
    generalize hgs : fs ++ [['#']] = gs at hm
    cases hm with
    | exact hno hm => exact absurd (by rw [← hgs]; simp) hno
    | multi hm =>
      obtain ⟨rfl, -⟩ := List.append_inj' hgs rfl
      exact ⟨_, _, rfl, hm⟩
  · rintro ⟨us, rest, rfl, hm⟩
    exact .multi hm

end

/-- What the code matches, told by levels. -/
theorem matchTopic_iff {f : String} (hf : ValidFilter f) {filter : TopicFilter}
    (h : TopicFilter.fromString f = .ok filter) (t : String) :
    filter.matchTopic t = true ↔ ExprMatches (levelsOf f) (levelsOf t) := by
  rw [fromString_eq h]
  unfold TopicFilter.matchTopic
  rcases hf.levels_cases with hplain | ⟨front, hls, hplain⟩
  · rw [exprMatches_plain hplain]
    obtain ⟨l, ls, hls⟩ := List.exists_cons_of_ne_nil (List.splitOn_ne_nil '/' f.toList)
    rw [show levelsOf f = l :: ls from hls] at hplain ⊢
    rw [← List.append_nil (l :: ls), isMatch_matchExpr mem_levels_nil hplain, List.append_nil]
    constructor
    · rintro ⟨ms, _, hms, hslash, htext, rfl⟩
      have hne : ms ≠ [] := by
        rintro rfl
        cases hms
      rw [levelsOf, splitOn_eq_iff.2 ⟨by rw [htext, List.append_nil], hne, hslash⟩]
      exact hms
    · intro hms
      exact ⟨levelsOf t, [], hms, fun m hm => not_mem_part hm, by rw [List.append_nil]; exact
        (List.intercalate_splitOn '/').symm, rfl⟩
  · rw [hls]
    cases front with
    | nil => exact iff_of_true (isMatch_hash t.toList) (.all _)
    | cons l ls =>
      have hne : l :: ls ≠ [] := List.cons_ne_nil l ls
      rw [exprMatches_hash hne, isMatch_matchExpr mem_levels_hash hplain, cut_iff hne]
      rfl

/-! ## Where the readings agree -/

theorem exprLevel_iff (l m : List Char) : ExprLevel l m ↔ MqttLevel l m ∧ ¬(l = ['+'] ∧ m = []) := by
  unfold ExprLevel MqttLevel
  split_ifs with hl
  · exact ⟨fun h => ⟨.inl hl, fun hm => h hm.2⟩, fun h hm => h.2 ⟨hl, hm⟩⟩
  · exact ⟨fun h => ⟨.inr h, fun hm => hl hm.1⟩, fun h => h.1.resolve_left hl⟩

theorem exprLevels_iff : ∀ {fs ts : List (List Char)}, List.Forall₂ ExprLevel fs ts ↔
    List.Forall₂ MqttLevel fs ts ∧ (['+'], []) ∉ fs.zip ts
  | [], ts => by simp
  | l :: fs, [] => by simp
  | l :: fs, m :: ts => by
    rw [List.forall₂_cons, List.forall₂_cons, exprLevels_iff, exprLevel_iff, List.zip_cons_cons, List.mem_cons,
      Prod.mk.injEq, eq_comm, eq_comm (a := [])]
    tauto

section
variable {fs ts us rest : List (List Char)} {l p x : List Char}

theorem forall₂_concat {R : List Char → List Char → Prop} :
    List.Forall₂ R (fs ++ [l]) (us ++ [p]) ↔ List.Forall₂ R fs us ∧ R l p := by
  rw [← List.forall₂_reverse_iff, List.reverse_concat, List.reverse_concat, List.forall₂_cons,
    List.forall₂_reverse_iff, and_comm]

theorem misread_plain (h : ∀ k ∈ fs, PlainLevel k) :
    Misread fs ts ↔ MqttMatches fs ts ∧ (['+'], []) ∈ fs.zip ts := by
  refine ⟨fun hm => ?_, fun hm => .emptyLevel hm.1 hm.2⟩
  generalize hfs : fs = gs at hm
  cases hm with
  | emptyLevel hm hempty => exact ⟨hm, hempty⟩
  | lineBreak => exact absurd hfs (plain_ne_hash h _)
  | @longerLevel gs _ _ l => exact absurd hfs (by simpa using plain_ne_hash h (gs ++ [l]))

theorem not_misread_hash : ¬Misread [['#']] ts := by
  intro hm
  generalize hfs : [['#']] = gs at hm
  cases hm with
  | emptyLevel _ hempty =>
    rw [← hfs] at hempty
    cases ts <;> simp at hempty
  | lineBreak hne => exact hne (by simpa using hfs.symm)
  | longerLevel => simpa using congrArg List.length hfs

/-- What the expression matches has no empty level at a `+`. -/
theorem no_empty_level (h : List.Forall₂ ExprLevel fs (us ++ [p])) :
    (['+'], []) ∉ (fs ++ [['#']]).zip (us ++ (p ++ x) :: rest) := by
  rcases List.eq_nil_or_concat' fs with rfl | ⟨front, l, rfl⟩
  · cases us <;> simp
  · obtain ⟨hfront, hl⟩ := forall₂_concat.1 h
    rw [List.append_assoc, List.zip_append hfront.length_eq, List.mem_append]
    rintro (hm | hm)
    · exact (exprLevels_iff.1 hfront).2 hm
    · simp only [List.cons_append, List.nil_append, List.zip_cons_cons, List.mem_cons, Prod.mk.injEq] at hm
      rcases hm with ⟨rfl, hpx⟩ | hm
      · exact ((exprLevel_iff _ _).1 hl).2 ⟨rfl, (List.append_eq_nil_iff.1 hpx.symm).1⟩
      · cases rest <;> simp at hm

/-- Where the levels are cut in two ways at the same place, the parts are the same. -/
theorem cut_unique {back : List (List Char)} {l' : List Char} (h : List.Forall₂ ExprLevel fs (us ++ [p]))
    (hm : List.Forall₂ MqttLevel fs ts) (hsame : ts ++ back = us ++ l' :: rest) : ts = us ++ [l'] ∧ back = rest := by
  refine List.append_inj (hsame.trans (by simp)) ?_
  rw [← hm.length_eq, h.length_eq]
  simp

theorem Misread.differ (hfs : fs ≠ []) (hm : Misread (fs ++ [['#']]) ts) :
    ¬(ExprMatches (fs ++ [['#']]) ts ↔ MqttMatches (fs ++ [['#']]) ts) := by
  rw [exprMatches_hash hfs]
  intro hagree
  generalize hgs : fs ++ [['#']] = gs at hm
  cases hm with
  | emptyLevel hm hempty =>
    subst hgs
    obtain ⟨us, p, x, rest, rfl, he, -⟩ := hagree.2 hm
    exact no_empty_level he hempty
  | lineBreak hne hm hbreak =>
    obtain ⟨rfl, -⟩ := List.append_inj' hgs rfl
    obtain ⟨us, p, x, rest, hts, he, hone⟩ := hagree.2 (.multi hm)
    obtain ⟨-, rfl⟩ := cut_unique he hm hts
    obtain ⟨m, hm, hn⟩ := hbreak
    exact hone m (List.mem_cons_of_mem x hm) hn
  | @longerLevel front us rest l x h hl hx hbreak =>
    obtain ⟨rfl, -⟩ : fs = front ++ [l] ∧ _ := List.append_inj' (hgs.trans (by simp)) rfl
    have he : List.Forall₂ ExprLevel (front ++ [l]) (us ++ [l]) := forall₂_concat.2 ⟨h, by simp [ExprLevel, hl]⟩
    obtain ⟨ts, back, hts, hm⟩ := mqttMatches_hash.1 (hagree.1 ⟨us, l, x, rest, rfl, he, hbreak⟩)
    obtain ⟨rfl, -⟩ := cut_unique he hm hts.symm
    rcases (forall₂_concat.1 hm).2 with h | h
    · exact hl h
    · exact hx (by simpa using h)

/-- Before a `#` the readings differ in the three ways of `Misread` only. -/
theorem agree_of_not_misread (hfs : fs ≠ []) (hm : ¬Misread (fs ++ [['#']]) ts) :
    ExprMatches (fs ++ [['#']]) ts ↔ MqttMatches (fs ++ [['#']]) ts := by
  constructor
  · intro he
    obtain ⟨us, p, x, rest, rfl, he, hbreak⟩ := (exprMatches_hash hfs).1 he
    obtain ⟨front, l, rfl⟩ := (List.eq_nil_or_concat' fs).resolve_left hfs
    obtain ⟨hfront, hl⟩ := forall₂_concat.1 he
    have hlevel : MqttLevel l (p ++ x) := by
      unfold ExprLevel at hl
      split_ifs at hl with hplus
      · exact .inl hplus
      · right
        by_contra hx
        subst hl
        -- the topic's level goes on behind the filter's
        refine hm ?_
        rw [List.append_assoc]
        exact .longerLevel hfront hplus (by rintro rfl; simp at hx) hbreak
    exact mqttMatches_hash.2 ⟨us ++ [p ++ x], rest, by simp, forall₂_concat.2 ⟨(exprLevels_iff.1 hfront).1, hlevel⟩⟩
  · intro h
    obtain ⟨us, rest, rfl, hus⟩ := mqttMatches_hash.1 h
    have hbreak : ∀ m ∈ rest, '\n' ∉ m := fun m hmem hn => hm (.lineBreak hfs hus ⟨m, hmem, hn⟩)
    have hempty : (['+'], []) ∉ fs.zip us := by
      intro hmem
      refine hm (.emptyLevel h ?_)
      rw [List.zip_append hus.length_eq]
      exact List.mem_append_left _ hmem
    have he := exprLevels_iff.2 ⟨hus, hempty⟩
    -- the `#` takes in nothing of the level before it
    rcases List.eq_nil_or_concat' us with rfl | ⟨us, p, rfl⟩
    · cases hus
      exact absurd rfl hfs
    · exact (exprMatches_hash hfs).2 ⟨us, p, [], rest, by simp, he, List.forall_mem_cons.2 ⟨nofun, hbreak⟩⟩

end

/-- `match_topic` is MQTT's matching for all filters and topics but those that the expression misreads. -/
theorem matches_by_levels_iff {f : String} (hf : ValidFilter f) (t : String) :
    MatchesByLevels f t ↔ ¬Misread (levelsOf f) (levelsOf t) := by
  obtain ⟨filter, hfilter⟩ := hf.accepted
  have hagree : MatchesByLevels f t ↔
      (ExprMatches (levelsOf f) (levelsOf t) ↔ MqttMatches (levelsOf f) (levelsOf t)) := by
    rw [← matchTopic_iff hf hfilter t]
    constructor
    · rintro ⟨other, hother, h⟩
      cases hfilter.symm.trans hother
      exact h
    · intro h
      exact ⟨filter, hfilter, h⟩
  rw [hagree]
  rcases hf.levels_cases with hplain | ⟨front, hls, -⟩
  · rw [exprMatches_plain hplain, exprLevels_iff, misread_plain hplain, mqttMatches_plain hplain]
    tauto
  · rw [hls]
    rcases eq_or_ne front [] with rfl | hfront
    · exact iff_of_true (iff_of_true (.all _) (mqttMatches_hash.2 ⟨[], levelsOf t, rfl, .nil⟩)) not_misread_hash
    · exact ⟨fun h hm => hm.differ hfront h, agree_of_not_misread hfront⟩

theorem valid_below_a : ValidFilter "a/#" := by
  have hls : levelsOf "a/#" = [['a'], ['#']] := by decide
  refine ⟨by decide, by rw [hls]; decide, ?_⟩
  intro front l back h hl
  rw [hls] at h
  match front, h with
  | [], h => cases h; simp at hl
  | [_], h => cases h; exact ⟨rfl, rfl⟩
  | _ :: _ :: front, h => simp at h

theorem matches_by_levels_iff_below_a : ValidFilter "a/#" ∧
    (MatchesByLevels "a/#" "ab" ↔ ¬Misread [['a'], ['#']] [['a', 'b']]) :=
  ⟨valid_below_a, matches_by_levels_iff valid_below_a "ab"⟩

/-- `a/#` matches `ab`, which is not below `a`. -/
theorem below_a_matches_ab : ¬∀ f t : String, ValidFilter f → t ≠ "" → '+' ∉ t.toList → '#' ∉ t.toList →
    MatchesByLevels f t := by
  intro h
  obtain ⟨filter, hfilter, hmatch⟩ := h "a/#" "ab" valid_below_a (by decide) (by decide) (by decide)
  rw [fromString_eq hfilter] at hmatch
  have hm : MqttMatches ([['a']] ++ [['#']]) [['a', 'b']] := hmatch.1 (by decide)
  obtain ⟨us, rest, hus, hm⟩ := mqttMatches_hash.1 hm
  obtain ⟨m, _, hlevel, hnil, rfl⟩ := List.forall₂_cons_left_iff.1 hm
  cases hnil
  cases hus
  rcases hlevel with h | h <;> simp at h

end TokioMqtt.Proto
