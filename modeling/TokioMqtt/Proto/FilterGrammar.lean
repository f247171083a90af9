/-
Which strings are topic filters: MQTT's grammar, told by levels, against the two searches of `from_string`,
which look at neighbouring characters. They agree but on a `#` with a line break after it, which `#(?:.+)`
does not find.
-/
import TokioMqtt.Lib.Separated
import TokioMqtt.Proto.TopicFilter

namespace TokioMqtt.Proto

open Regex Separated

/-! ## The grammar -/

/-- The levels of a filter or of a topic. -/
def levelsOf (s : String) : List (List Char) := s.toList.splitOn '/'

/-- A `+` is a whole level, and a `#` is the whole last level. -/
structure ValidFilter (s : String) : Prop where
  nonempty : s ≠ ""
  plus : ∀ l ∈ levelsOf s, '+' ∈ l → l = ['+']
  hash : ∀ front l back, levelsOf s = front ++ l :: back → '#' ∈ l → l = ['#'] ∧ back = []

/-- `from_string` accepts the strings of the grammar and rejects all others as invalid filters. -/
def AcceptsGrammar (s : String) : Prop :=
  ((∃ f, TopicFilter.fromString s = .ok f) ↔ ValidFilter s) ∧
    (¬ValidFilter s → TopicFilter.fromString s = .error .invalidTopicFilter)

/-- A level that begins with a `#` and a line break, with no other `#` in it. -/
def LineBreakLevel (l : List Char) : Prop := ∃ y, l = '#' :: '\n' :: y ∧ '#' ∉ y

/-- A string that would be a filter were it not for levels that begin with a `#` and a line break. -/
structure SlipsThrough (s : String) : Prop where
  plus : ∀ l ∈ levelsOf s, '+' ∈ l → l = ['+']
  hash : ∀ front l back, levelsOf s = front ++ l :: back → '#' ∈ l → LineBreakLevel l ∨ l = ['#'] ∧ back = []
  lineBreak : ∃ l ∈ levelsOf s, LineBreakLevel l

/-! ## Neighbours -/

/-- Neighbours that `INVALID_SINGLELEVEL` does not find. -/
def PlusApart (c d : Char) : Prop := (d = '+' → c = '/') ∧ (c = '+' → d = '/')

/-- Neighbours that `INVALID_MULTILEVEL` does not find. -/
def HashApart (c d : Char) : Prop := (d = '#' → c = '/') ∧ (c = '#' → d = '\n')

/-- Two searches for neighbours fail where all neighbours are apart. -/
theorem not_isMatch_iff {text : List Char} {r : Expr} (k₁ k₂ k₃ k₄ : CharClass) {R : Char → Char → Prop}
    (hr : isMatch r text = true ↔ isMatch (.seq (.chars k₁) (.chars k₂)) text = true ∨
      isMatch (.seq (.chars k₃) (.chars k₄)) text = true)
    (hR : ∀ c d, R c d ↔ ¬((k₁.mem c = true ∧ k₂.mem d = true) ∨ (k₃.mem c = true ∧ k₄.mem d = true))) :
    isMatch r text = false ↔ List.IsChain R text := by
  rw [Bool.eq_false_iff, ne_eq, hr, isMatch_two_chars, isMatch_two_chars,
    List.isChain_iff_forall_rel_of_append_cons_cons]
  constructor
  · intro h c d u v htext
    rw [hR]
    rintro (⟨hc, hd⟩ | ⟨hc, hd⟩)
    · exact h (.inl ⟨u, c, d, v, htext, hc, hd⟩)
    · exact h (.inr ⟨u, c, d, v, htext, hc, hd⟩)
  · rintro h (⟨u, c, d, v, htext, hc, hd⟩ | ⟨u, c, d, v, htext, hc, hd⟩)
    · exact (hR c d).1 (h htext) (.inl ⟨hc, hd⟩)
    · exact (hR c d).1 (h htext) (.inr ⟨hc, hd⟩)

theorem invalidSinglelevel_iff (text : List Char) :
    isMatch invalidSinglelevel text = false ↔ List.IsChain PlusApart text := by
  refine not_isMatch_iff (.notOne '/') (.one '+') (.one '+') (.notOne '/') isMatch_alt fun c d => ?_
  simp only [PlusApart, CharClass.mem, decide_eq_true_eq]
  tauto

theorem invalidMultilevel_iff (text : List Char) :
    isMatch invalidMultilevel text = false ↔ List.IsChain HashApart text := by
  refine not_isMatch_iff (.notOne '/') (.one '#') (.one '#') .any
    (isMatch_alt.trans (or_congr_right isMatch_chars_plus)) fun c d => ?_
  simp only [HashApart, CharClass.mem, decide_eq_true_eq]
  tauto

/-! ## Levels -/

/-- Without a certain character there is nothing to keep apart from it. -/
theorem isChain_of_not_mem {R : Char → Char → Prop} {m : Char} (hR : ∀ c d, c ≠ m → d ≠ m → R c d) {l : List Char}
    (hm : m ∉ l) : List.IsChain R l := by
  rw [List.isChain_iff_forall_rel_of_append_cons_cons]
  rintro c d u v rfl
  apply hR
  · rintro rfl
    exact hm (by simp)
  · rintro rfl
    exact hm (by simp)

/-- A character that only a slash may precede is the first of a level, and there is no other of it. -/
theorem mark_first {R : Char → Char → Prop} {m : Char} (hR : ∀ c, R c m → c = '/') {l : List Char} (hl : '/' ∉ l)
    (h : List.IsChain R l) (hm : m ∈ l) : ∃ y, l = m :: y ∧ m ∉ y := by
  have hfirst : ∀ u y, l = u ++ m :: y → u = [] := by
    rintro u y rfl
    rcases List.eq_nil_or_concat' u with rfl | ⟨u, c, rfl⟩
    · rfl
    · -- the character before it would be a slash
      rw [List.append_assoc] at h hl
      have hc := hR c (List.isChain_append_cons_cons.1 h).2.1
      subst hc
      exact absurd (by simp) hl
  obtain ⟨u, y, rfl⟩ := List.append_of_mem hm
  obtain rfl := hfirst u y rfl
  refine ⟨y, rfl, fun hy => ?_⟩
  obtain ⟨u, v, rfl⟩ := List.append_of_mem hy
  cases hfirst (m :: u) v rfl

theorem plus_level {l : List Char} (hl : '/' ∉ l) : List.IsChain PlusApart l ↔ ('+' ∈ l → l = ['+']) := by
  constructor
  · intro h hm
    obtain ⟨y, rfl, -⟩ := mark_first (fun c hc => hc.1 rfl) hl h hm
    cases y with
    | nil => rfl
    | cons d y =>
      have hd := (List.isChain_cons_cons.1 h).1.2 rfl
      subst hd
      exact absurd (by simp) hl
  · intro h
    by_cases hm : '+' ∈ l
    · rw [h hm]
      exact List.isChain_singleton _
    · exact isChain_of_not_mem (fun c d hc hd => ⟨fun h => absurd h hd, fun h => absurd h hc⟩) hm

/-- A level before another one, with the slash between them. -/
theorem plus_front {l : List Char} : List.IsChain PlusApart (l ++ ['/']) ↔ List.IsChain PlusApart l := by
  rw [List.isChain_append]
  refine ⟨fun h => h.1, fun h => ⟨h, List.isChain_singleton _, fun c _ d hd => ?_⟩⟩
  obtain rfl := Option.some.inj hd
  exact ⟨nofun, fun _ => rfl⟩

theorem lineBreak_chain {y : List Char} (hy : '#' ∉ y) : List.IsChain HashApart ('#' :: '\n' :: y) := by
  have hrest : List.IsChain HashApart ('\n' :: y) :=
    isChain_of_not_mem (fun c d hc hd => ⟨fun h => absurd h hd, fun h => absurd h hc⟩) (by simp [hy])
  exact List.isChain_cons_cons.2 ⟨⟨nofun, fun _ => rfl⟩, hrest⟩

/-- The last level: `#` alone, or a `#` with a line break after it. -/
theorem hash_last {l : List Char} (hl : '/' ∉ l) :
    List.IsChain HashApart l ↔ ('#' ∈ l → LineBreakLevel l ∨ l = ['#']) := by
  constructor
  · intro h hm
    obtain ⟨y, rfl, hy⟩ := mark_first (fun c hc => hc.1 rfl) hl h hm
    cases y with
    | nil => exact .inr rfl
    | cons d y =>
      have hd := (List.isChain_cons_cons.1 h).1.2 rfl
      subst hd
      exact .inl ⟨y, rfl, fun hmem => hy (List.mem_cons_of_mem _ hmem)⟩
  · intro h
    by_cases hm : '#' ∈ l
    · rcases h hm with ⟨y, rfl, hy⟩ | rfl
      · exact lineBreak_chain hy
      · exact List.isChain_singleton _
    · exact isChain_of_not_mem (fun c d hc hd => ⟨fun h => absurd h hd, fun h => absurd h hc⟩) hm

/-- A level before another one: only a line break hides its `#`. -/
theorem hash_front {l : List Char} (hl : '/' ∉ l) :
    List.IsChain HashApart (l ++ ['/']) ↔ ('#' ∈ l → LineBreakLevel l) := by
  rw [List.isChain_append, hash_last hl]
  constructor
  · rintro ⟨h, -, hend⟩ hm
    rcases h hm with hbreak | rfl
    · exact hbreak
    · exact absurd ((hend '#' rfl '/' rfl).2 rfl) (by decide)
  · intro h
    refine ⟨fun hm => .inl (h hm), List.isChain_singleton _, fun c hc d hd => ?_⟩
    obtain rfl := Option.some.inj hd
    refine ⟨nofun, ?_⟩
    rintro rfl
    -- a level that ends in `#` is that character alone, or has a second one
    obtain ⟨y, rfl, hy⟩ := h (List.mem_of_getLast? hc)
    have hlast : '#' ∈ '\n' :: y := List.mem_of_getLast? (by simpa using hc)
    simp [hy] at hlast

/-! ## Strings -/

/-- A condition on the levels that asks of the last one something of its own. -/
theorem forall_levels {P : List Char → Prop → Prop} {ls : List (List Char)} {last : List Char} :
    (∀ front l back, ls ++ [last] = front ++ l :: back → P l (back = [])) ↔ (∀ l ∈ ls, P l False) ∧ P last True := by
  constructor
  · intro h
    refine ⟨fun l hl => ?_, by simpa using h ls last [] rfl⟩
    obtain ⟨u, v, rfl⟩ := List.append_of_mem hl
    simpa using h u l (v ++ [last]) (by simp)
  · rintro ⟨hls, hlast⟩ front l back heq
    rcases List.eq_nil_or_concat' back with rfl | ⟨back, x, rfl⟩
    · obtain ⟨rfl, hl⟩ := List.append_inj' heq rfl
      obtain rfl := List.head_eq_of_cons_eq hl
      simpa using hlast
    · rw [← List.cons_append, ← List.append_assoc] at heq
      obtain ⟨rfl, -⟩ := List.append_inj' heq rfl
      simpa using hls l (by simp)

theorem levelsOf_eq (s : String) : ∃ front last, levelsOf s = front ++ [last] ∧
    s.toList = ['/'].intercalate (front ++ [last]) ∧ (∀ l ∈ front, '/' ∉ l) ∧ '/' ∉ last := by
  rcases List.eq_nil_or_concat' (levelsOf s) with hnil | ⟨front, last, hls⟩
  · exact absurd hnil (List.splitOn_ne_nil '/' s.toList)
  · obtain ⟨hjoin, -, hslash⟩ := splitOn_eq_iff.1 hls
    refine ⟨front, last, hls, hjoin, fun l hl => hslash l (by simp [hl]), hslash last (by simp)⟩

theorem plus_chain (s : String) : List.IsChain PlusApart s.toList ↔ ∀ l ∈ levelsOf s, '+' ∈ l → l = ['+'] := by
  obtain ⟨front, last, hls, hjoin, hfront, hlast⟩ := levelsOf_eq s
  rw [hjoin, isChain_intercalate fun _ => ⟨fun _ => rfl, nofun⟩, plus_level hlast, hls, List.forall_mem_append,
    List.forall_mem_singleton]
  refine and_congr_left' (forall₂_congr fun l hl => ?_)
  rw [plus_front, plus_level (hfront l hl)]

theorem hash_chain (s : String) : List.IsChain HashApart s.toList ↔ ∀ front l back,
    levelsOf s = front ++ l :: back → '#' ∈ l → LineBreakLevel l ∨ l = ['#'] ∧ back = [] := by
  obtain ⟨front, last, hls, hjoin, hfront, hlast⟩ := levelsOf_eq s
  rw [hls, forall_levels (P := fun l e => '#' ∈ l → LineBreakLevel l ∨ l = ['#'] ∧ e), hjoin,
    isChain_intercalate fun _ => ⟨fun _ => rfl, nofun⟩, hash_last hlast]
  simp only [and_false, or_false, and_true]
  refine and_congr_left' (forall₂_congr fun l hl => ?_)
  rw [hash_front (hfront l hl)]

/-- What `from_string` checks, as a condition on neighbours. -/
theorem fromString_ok_iff (s : String) : (∃ f, TopicFilter.fromString s = .ok f) ↔
    s ≠ "" ∧ List.IsChain PlusApart s.toList ∧ List.IsChain HashApart s.toList := by
  rw [← invalidSinglelevel_iff, ← invalidMultilevel_iff]
  unfold TopicFilter.fromString
  cases isMatch invalidSinglelevel s.toList with
  | true => simp
  | false =>
    cases isMatch invalidMultilevel s.toList with
    | true => simp
    | false => by_cases hs : s = "" <;> simp [hs]

theorem fromString_error {s : String} (h : ¬∃ f, TopicFilter.fromString s = .ok f) :
    TopicFilter.fromString s = .error .invalidTopicFilter := by
  unfold TopicFilter.fromString at h ⊢
  split
  · rfl
  · split
    · rfl
    · rename_i h₁ h₂
      rw [if_neg h₁, if_neg h₂] at h
      exact absurd ⟨_, rfl⟩ h

/-- The filter that `from_string` returns. -/
theorem fromString_eq {s : String} {f : TopicFilter} (h : TopicFilter.fromString s = .ok f) :
    f = ⟨TopicFilter.matchExpr (levelsOf s), s⟩ := by
  unfold TopicFilter.fromString at h
  split at h
  · cases h
  · split at h
    · cases h
    · exact (Except.ok.inj h).symm

theorem ValidFilter.accepted {s : String} (h : ValidFilter s) : ∃ f, TopicFilter.fromString s = .ok f := by
  rw [fromString_ok_iff, plus_chain, hash_chain]
  exact ⟨h.nonempty, h.plus, fun front l back hls hm => .inr (h.hash front l back hls hm)⟩

/-- `from_string` keeps to the grammar but on the strings that slip through. -/
theorem accepts_grammar_iff (s : String) : AcceptsGrammar s ↔ ¬SlipsThrough s := by
  have hok := fromString_ok_iff s
  rw [plus_chain, hash_chain] at hok
  constructor
  · rintro ⟨hiff, -⟩ ⟨hplus, hhash, l, hl, y, rfl, -⟩
    obtain ⟨u, v, hls⟩ := List.append_of_mem hl
    have hne : s ≠ "" := by
      rintro rfl
      have hempty : levelsOf "" = [[]] := by decide
      rw [hempty] at hl
      simp at hl
    have hvalid := hiff.1 (hok.2 ⟨hne, hplus, hhash⟩)
    -- it is accepted, and its level is not a `#` alone
    obtain ⟨hwhole, -⟩ := hvalid.hash u _ v hls (by simp)
    cases hwhole
  · intro hslip
    have hiff : (∃ f, TopicFilter.fromString s = .ok f) ↔ ValidFilter s := by
      refine ⟨fun hf => ?_, ValidFilter.accepted⟩
      obtain ⟨hne, hplus, hhash⟩ := hok.1 hf
      refine ⟨hne, hplus, fun front l back hls hm => ?_⟩
      rcases hhash front l back hls hm with hbreak | hwhole
      · exact absurd ⟨hplus, hhash, l, by rw [hls]; simp, hbreak⟩ hslip
      · exact hwhole
    exact ⟨hiff, fun hinvalid => fromString_error fun hf => hinvalid (hiff.1 hf)⟩

/-- `#` and a line break is taken for a filter. -/
theorem lineBreak_accepted : ¬ ∀ s, AcceptsGrammar s := by
  intro h
  obtain ⟨hiff, -⟩ := h "#\n"
  have hvalid := hiff.1 ⟨⟨TopicFilter.matchExpr [['#', '\n']], "#\n"⟩, by decide⟩
  obtain ⟨hwhole, -⟩ := hvalid.hash [] ['#', '\n'] [] (by decide) (by simp)
  cases hwhole

end TokioMqtt.Proto
