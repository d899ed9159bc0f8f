import Stencil.Proofs.Pieces.Leftmost
import Stencil.Proofs.Pieces.Standard
import Stencil.Template.Compile

/-!
# Pieces — the standard delimiters in one pass

A scanner that knows the standard marks needs no patterns and no searches: it goes through the text once,
and where `<%` stands it looks for the closing marks (`onePass`).  The mark after `<%` makes the directive
an expression if the closing marks come with a character at least between them and the mark; otherwise the
mark is the first character of statements.

**One pass** (`pieces_standard`).  Under the standard settings the pieces of every text are those of the
scanner.
-/

namespace Stencil

/-! ### The scanner -/

namespace Piece

/-- The text up to the first closing marks, and what follows these. -/
def upToClosing? : List Char → Option (List Char × List Char)
  | [] => none
  | '%' :: '>' :: rest => some ([], rest)
  | c :: rest => (upToClosing? rest).map fun (inner, after) => (c :: inner, after)

/-- The kind of an expression, by its mark. -/
def markedKind? : Char → Option Directive
  | '-' => some .escape
  | '=' => some .interpolate
  | _ => none

/-- An expression whose opening marks are passed: its kind, what is inside it, and what follows it. -/
def expression? (mark : Char) : List Char → Option (Directive × List Char × List Char)
  | [] => none
  | c :: rest =>
    match markedKind? mark, upToClosing? rest with
    | some kind, some (inner, after) => some (kind, c :: inner, after)
    | _, _ => none

/-- Statements whose opening marks are passed, and what follows them. -/
def statements? (c : Char) (rest : List Char) : Option (Directive × List Char × List Char) :=
  (upToClosing? rest).map fun (inner, after) => (.evaluate, c :: inner, after)

/-- The directive at the front of a text. -/
def directiveAt? : List Char → Option (Directive × List Char × List Char)
  | '<' :: '%' :: c :: rest => (expression? c rest).or (statements? c rest)
  | _ => none

/-! ### The closing marks -/

theorem upToClosing?_cons {c : Char} {rest : List Char} (h : ¬ ['%', '>'] <+: c :: rest) :
    upToClosing? (c :: rest) = (upToClosing? rest).map fun (inner, after) => (c :: inner, after) := by
  rw [upToClosing?]
  rintro more rfl rfl
  exact h (List.prefix_append ['%', '>'] more)

theorem upToClosing?_eq_some {cs inner after : List Char}
    (h : upToClosing? cs = some (inner, after)) :
    cs = inner ++ '%' :: '>' :: after ∧ Avoids '%' '>' inner := by
  induction cs generalizing inner with
  | nil => cases h
  | cons c rest ih =>
      by_cases hclosing : ['%', '>'] <+: c :: rest
      · obtain ⟨more, hmore⟩ := hclosing
        cases hmore
        cases h
        exact ⟨rfl, .nil _ _⟩
      · rw [upToClosing?_cons hclosing] at h
        obtain ⟨⟨inner', after'⟩, hrest, heq⟩ := Option.map_eq_some_iff.mp h
        cases heq
        obtain ⟨rfl, havoids⟩ := ih hrest
        refine ⟨rfl, fun hi => ?_⟩
        rcases List.infix_cons_iff.mp hi with hp | hi
        · exact hclosing (hp.trans ⟨'%' :: '>' :: after, rfl⟩)
        · exact havoids hi

theorem avoids_of_upToClosing? {cs : List Char} (h : upToClosing? cs = none) : Avoids '%' '>' cs := by
  induction cs with
  | nil => exact .nil _ _
  | cons c rest ih =>
      by_cases hclosing : ['%', '>'] <+: c :: rest
      · obtain ⟨more, hmore⟩ := hclosing
        cases hmore
        cases h
      · rw [upToClosing?_cons hclosing, Option.map_eq_none_iff] at h
        intro hi
        rcases List.infix_cons_iff.mp hi with hp | hi
        · exact hclosing hp
        · exact ih h hi

/-- The directive of the scanner is written at the front of the text. -/
theorem written_of_directiveAt? {cs inner after : List Char} {kind : Directive}
    (h : directiveAt? cs = some (kind, inner, after)) :
    ∃ c text, inner = c :: text ∧ Avoids '%' '>' text ∧ cs = written kind inner ++ after := by
  rw [directiveAt?.eq_def] at h
  split at h
  · rename_i c rest
    rw [Option.or_eq_some_iff] at h
    rcases h with h | ⟨-, h⟩
    · rw [expression?.eq_def] at h
      split at h
      · cases h
      · rename_i d rest
        split at h
        · rename_i kind' inner' after' hmark hclosing
          cases h
          obtain ⟨rfl, havoids⟩ := upToClosing?_eq_some hclosing
          refine ⟨d, inner', rfl, havoids, ?_⟩
          rw [markedKind?.eq_def] at hmark
          split at hmark <;> cases hmark <;> simp [written, Pattern.opening, Delimiter.standardMark]
        · cases h
    · obtain ⟨⟨inner', after'⟩, hclosing, heq⟩ := Option.map_eq_some_iff.mp h
      cases heq
      obtain ⟨rfl, havoids⟩ := upToClosing?_eq_some hclosing
      refine ⟨c, inner', rfl, havoids, ?_⟩
      simp [written, Pattern.opening, Delimiter.standardMark]
  · cases h

theorem length_of_directiveAt? {cs inner after : List Char} {kind : Directive}
    (h : directiveAt? cs = some (kind, inner, after)) : after.length < cs.length := by
  obtain ⟨c, text, rfl, -, rfl⟩ := written_of_directiveAt? h
  simp only [written, List.length_append, List.length_cons]
  omega

/-- **The scanner.**  `text` is the literal text so far, the last character first. -/
def onePass (text cs : List Char) : List Piece :=
  match _ : directiveAt? cs with
  | some (kind, inner, after) => ofText text.reverse ++ .directive kind inner :: onePass [] after
  | none =>
    match cs with
    | [] => ofText text.reverse
    | c :: rest => onePass (c :: text) rest
  termination_by cs.length
  decreasing_by
    · exact length_of_directiveAt? (by assumption)
    · exact Nat.lt_succ_self _

end Piece

/-! ### The patterns of the standard delimiters -/

namespace Pattern
open Delimiter

/-- A lazy repetition before something that comes nowhere. -/
theorem onwards_anyChar_none {next : Progress → Option Progress} {groups : List (Nat × Span)}
    {cs : List Char} {before : Option Char} {passed left : Nat}
    (h : ∀ i b, next ⟨⟨b, cs.drop i⟩, passed + i, groups⟩ = none) :
    Matcher.onwards (char anyChar).run false next left ⟨⟨before, cs⟩, passed, groups⟩ = none := by
  induction left generalizing cs before passed with
  | zero => exact h 0 before
  | succ left ih =>
      have hstop : next ⟨⟨before, cs⟩, passed, groups⟩ = none := h 0 before
      rw [Matcher.onwards, prefer, if_neg (by decide), hstop]
      cases cs with
      | nil => rfl
      | cons c cs =>
          rw [run_char, if_pos (has_anyChar c), if_pos (Nat.lt_succ_self _)]
          refine ih fun i b => ?_
          have := h (i + 1) b
          rwa [List.drop_succ_cons, Nat.add_comm i, ← Nat.add_assoc] at this

/-- **A directive that is not closed** does not match: the closing marks come nowhere after its first
character. -/
theorem matchAt_unclosed (kind : Directive) {cs : List Char} (h : Avoids '%' '>' cs.tail)
    (before : Option Char) : (standardPattern kind).matchAt ⟨before, opening kind ++ cs⟩ = none := by
  have hopen : (opening kind).isPrefixOf (opening kind ++ cs) = true :=
    List.isPrefixOf_iff_prefix.mpr (List.prefix_append _ _)
  obtain ⟨b, hb⟩ := advance_append before (opening kind) cs
  rw [matchAt, standardPattern, List.append_assoc]
  refine (run_marks (opening kind) (by simp) some _ 0 []).trans ?_
  rw [if_pos hopen, hb, List.singleton_append, run_sequenceOf _ (by simp [marks])]
  show (char anyChar).run (fun q => Matcher.afterRound _ false _ _ q) ⟨⟨b, cs⟩, _, _⟩ = _
  cases cs with
  | nil => rfl
  | cons c cs =>
      rw [run_char, if_pos (has_anyChar c), Matcher.afterRound, if_pos (Nat.lt_succ_self _)]
      refine onwards_anyChar_none fun i b => ?_
      exact (run_closing _ _ _).trans
        (if_neg fun e => Avoids.not_prefix (h.drop i) (List.isPrefixOf_iff_prefix.mp e))

/-- Where a search finds a match at once, the pattern matches. -/
theorem exists_match_of_find? {pattern : Pattern} {place : Place} {hit : Hit}
    (h : pattern.find? place = some hit) (hskipped : hit.skipped = 0) :
    ∃ p, pattern.matchAt place = some p ∧ hit = ⟨0, p.passed, p.groups⟩ := by
  match hmatch : pattern.matchAt place with
  | some p =>
      rw [Piece.find?_of_match hmatch] at h
      exact ⟨p, rfl, (Option.some.inj h).symm⟩
  | none =>
      obtain ⟨before, rest⟩ := place
      cases rest with
      | nil => simp only [find?, findFrom, hmatch, Option.map_none, reduceCtorEq] at h
      | cons c rest =>
          rw [Piece.find?_cons hmatch] at h
          obtain ⟨found, -, rfl⟩ := Option.map_eq_some_iff.mp h
          simp only [Piece.shift] at hskipped
          omega

/-- **What the search for a pattern reports** is what matches where it begins. -/
theorem reports_find?_iff {pattern : Pattern} {place : Place} {hit : Hit} :
    Piece.Reports pattern.find? place hit ↔ ∃ p, pattern.matchAt (place.advance hit.skipped) = some p ∧
      0 < p.passed ∧ hit = ⟨hit.skipped, p.passed, p.groups⟩ := by
  obtain ⟨skipped, length, groups⟩ := hit
  constructor
  · rintro ⟨hlength, hfound⟩
    obtain ⟨p, hmatch, hhit⟩ := exists_match_of_find? hfound rfl
    cases hhit
    exact ⟨p, hmatch, hlength, rfl⟩
  · rintro ⟨p, hmatch, hpassed, hhit⟩
    cases hhit
    exact ⟨hpassed, Piece.find?_of_match hmatch⟩

end Pattern

namespace Piece
open Pattern Delimiter

/-! ### The directive that comes next -/

theorem markedKind?_eq_some {mark : Char} {kind : Directive} (h : markedKind? mark = some kind) :
    opening kind = ['<', '%', mark] ∧ rank kind < rank .evaluate := by
  rw [markedKind?.eq_def] at h
  split at h <;> cases h <;> exact ⟨rfl, by decide⟩

theorem eq_of_opening_prefix {kind : Directive} {c : Char} {rest : List Char}
    (h : opening kind <+: '<' :: '%' :: c :: rest) :
    kind = .evaluate ∨ markedKind? c = some kind := by
  cases kind with
  | evaluate => exact .inl rfl
  | escape | interpolate =>
      right
      rw [← (List.cons_prefix_cons.mp (List.cons_prefix_cons.mp (List.cons_prefix_cons.mp h).2).2).1]
      rfl

/-- Where the scanner finds an expression, it has its kind; where it finds none, no expression
matches. -/
theorem matchAt_expression {c : Char} {rest : List Char} {kind : Directive}
    (hkind : markedKind? c = some kind) (h : expression? c rest = none) (before : Option Char) :
    (standardPattern kind).matchAt ⟨before, '<' :: '%' :: c :: rest⟩ = none := by
  have hopening := (markedKind?_eq_some hkind).1
  rw [show '<' :: '%' :: c :: rest = opening kind ++ rest by rw [hopening]; rfl]
  refine matchAt_unclosed kind ?_ before
  cases rest with
  | nil => exact .nil _ _
  | cons d rest =>
      refine avoids_of_upToClosing? (Option.eq_none_iff_forall_ne_some.mpr fun found hfound => ?_)
      rw [List.tail_cons] at hfound
      rw [expression?, hkind, hfound] at h
      cases h

/-- **Where the scanner finds no directive, none matches.** -/
theorem matchAt_of_directiveAt?_none {cs : List Char} (h : directiveAt? cs = none) (kind : Directive)
    (before : Option Char) : (standardPattern kind).matchAt ⟨before, cs⟩ = none := by
  by_cases hopens : opening kind <+: cs
  · obtain ⟨rest, rfl⟩ := opens_of_opening hopens
    cases rest with
    | nil =>
        cases kind with
        | evaluate => exact @matchAt_unclosed .evaluate [] (.nil _ _) before
        | escape | interpolate => exact absurd hopens.length_le (by decide)
    | cons c rest =>
        simp only [List.cons_append, List.nil_append] at h hopens ⊢
        rw [directiveAt?, Option.or_eq_none_iff] at h
        rcases eq_of_opening_prefix hopens with rfl | hkind
        · exact @matchAt_unclosed .evaluate (c :: rest)
            (avoids_of_upToClosing? (Option.map_eq_none_iff.mp h.2)) before
        · exact matchAt_expression hkind h.1 before
  · exact matchAt_none hopens

/-- A kind that wins against that of the scanner's directive does not match. -/
theorem matchAt_of_rank_lt {cs inner after : List Char} {kind other : Directive}
    (h : directiveAt? cs = some (kind, inner, after)) (hrank : rank other < rank kind)
    (before : Option Char) : (standardPattern other).matchAt ⟨before, cs⟩ = none := by
  by_cases hopens : opening other <+: cs
  · rw [directiveAt?.eq_def] at h
    split at h
    · rename_i c rest
      rcases eq_of_opening_prefix hopens with rfl | hkind
      · cases kind <;> exact absurd hrank (by decide)
      · rw [Option.or_eq_some_iff] at h
        rcases h with h | ⟨hnone, -⟩
        · -- both are the kind of the mark
          rw [expression?.eq_def] at h
          split at h
          · cases h
          · split at h
            · rename_i hmark _
              rw [hkind] at hmark
              cases hmark
              cases h
              exact absurd hrank (Nat.lt_irrefl _)
            · cases h
        · exact matchAt_expression hkind hnone before
    · cases h
  · exact matchAt_none hopens

section
variable {l cs : List Char} {before : Option Char}

/-- Nothing is reported before the scanner finds a directive. -/
theorem le_of_reports (hl : ∀ i < l.length, directiveAt? ((l ++ cs).drop i) = none) {kind : Directive}
    {hit : Hit} (h : Reports (standardSearch kind) ⟨before, l ++ cs⟩ hit) : l.length ≤ hit.skipped := by
  by_contra hlt
  obtain ⟨p, hp, -⟩ := reports_find?_iff.mp h
  have hrest := Place.rest_advance ⟨before, l ++ cs⟩ hit.skipped
  generalize (Place.mk before (l ++ cs)).advance hit.skipped = place at hp hrest
  obtain ⟨b, rest⟩ := place
  obtain rfl : rest = (l ++ cs).drop hit.skipped := hrest
  rw [matchAt_of_directiveAt?_none (hl hit.skipped (by omega))] at hp
  cases hp

/-- **The scanner's directive is the first** if no directive begins in the text before it. -/
theorem first_of_directiveAt? {inner after : List Char} {kind : Directive}
    (hl : ∀ i < l.length, directiveAt? ((l ++ cs).drop i) = none)
    (h : directiveAt? cs = some (kind, inner, after)) :
    ∃ hit, First standardSearch ⟨before, l ++ cs⟩ kind hit ∧ hit.skipped = l.length ∧
      hit.length = (written kind inner).length ∧ Piece.inner kind hit = inner := by
  obtain ⟨b, hb⟩ := advance_append before l cs
  obtain ⟨c, text, rfl, havoids, hcs⟩ := written_of_directiveAt? h
  have hmatch := @matchAt_directive kind c text after havoids b
  rw [show opening kind ++ c :: text ++ '%' :: '>' :: after = cs by
    simp only [hcs, written, List.append_assoc, List.cons_append, List.nil_append]] at hmatch
  refine ⟨⟨l.length, _, _⟩, ⟨reports_find?_iff.mpr ⟨_, by rw [hb]; exact hmatch, Nat.succ_pos _, rfl⟩,
    fun other found hreports => le_of_reports hl hreports,
    fun other found hreports hskipped => ?_⟩, rfl, ?_, ?_⟩
  · by_contra hrank
    obtain ⟨p, hp, -⟩ := reports_find?_iff.mp hreports
    rw [hskipped, hb, matchAt_of_rank_lt h (by omega)] at hp
    cases hp
  · simp only [written, List.length_append, List.length_cons, List.length_nil]
    omega
  · exact inner_of_group (congrArg some (List.take_left' (by simp))) (List.cons_ne_nil _ _)

/-- Without a directive nothing comes next. -/
theorem next?_of_directiveAt?_none (hl : ∀ i < l.length, directiveAt? (l.drop i) = none) :
    next? standardSearch ⟨before, l⟩ = none := by
  have hs : ∀ kind, Leftmost (standardSearch kind) := fun kind => leftmost_find? _
  have hnext := isFirst_next? hs ⟨before, l⟩
  match hfound : next? standardSearch ⟨before, l⟩ with
  | none => rfl
  | some (kind, hit) =>
      rw [hfound] at hnext
      have hreports := hnext.reports
      have hwithin := hreports.le_length (hs kind)
      have hpositive := hreports.nonempty
      rw [← List.append_nil l] at hl hreports
      have hle := le_of_reports (by simpa using hl) hreports
      simp only at hwithin
      omega

end

/-- **The pieces from a place on are those of the scanner.** -/
theorem all_eq_onePass {l cs : List Char} (before : Option Char)
    (hl : ∀ i < l.length, directiveAt? ((l ++ cs).drop i) = none) :
    all standardSearch ⟨before, l ++ cs⟩ = onePass l.reverse cs := by
  have hs : ∀ kind, Leftmost (standardSearch kind) := fun kind => leftmost_find? _
  induction hn : cs.length using Nat.strongRecOn generalizing l cs before with
  | ind n ih =>
      rw [onePass]
      split
      -- a directive begins here: all searches find it first, with `l` before it
      · rename_i kind inner after h
        obtain ⟨hit, hfirst, hskipped, hlength, hinner⟩ := @first_of_directiveAt? _ _ before _ _ _ hl h
        obtain ⟨c, text, -, -, hcs⟩ := written_of_directiveAt? h
        have hshorter := length_of_directiveAt? h
        obtain ⟨b, hb⟩ : ∃ b, (Place.mk before (l ++ cs)).advance (hit.skipped + hit.length) =
            ⟨b, after⟩ := by
          rw [hskipped, hlength, ← List.length_append, hcs, ← List.append_assoc]
          exact advance_append before _ after
        have hrest : l ++ cs ≠ [] := List.append_ne_nil_of_right_ne_nil l
          (List.ne_nil_of_length_pos (by omega))
        rw [all, next?_of_first hs hfirst]
        simp only [hfirst.reports.nonempty, hrest, ne_eq, not_false_eq_true, and_self, if_true, hinner,
          hb, List.reverse_reverse]
        rw [hskipped, List.take_left]
        congr 2
        exact ih after.length (by omega) (l := []) b (fun i hi => absurd hi (Nat.not_lt_zero i)) rfl
      -- none begins here: one more character is literal
      · rename_i h
        cases cs with
        | nil =>
            rw [List.append_nil] at hl ⊢
            rw [all, next?_of_directiveAt?_none hl]
            exact congrArg ofText (List.reverse_reverse l).symm
        | cons c rest =>
            show _ = onePass (c :: l.reverse) rest
            have hconcat : l ++ c :: rest = l ++ [c] ++ rest := by simp
            rw [hconcat, ← List.reverse_concat]
            refine ih rest.length (by rw [← hn]; exact Nat.lt_succ_self _) before (fun i hi => ?_) rfl
            rw [← hconcat]
            rcases Nat.lt_or_ge i l.length with hlt | hge
            · exact hl i hlt
            · obtain rfl : i = l.length := by
                rw [List.length_append, List.length_singleton] at hi
                omega
              rwa [List.drop_left]

end Piece

namespace Template

/-- **One pass.** -/
theorem pieces_standard (name : Option String) (text : String) :
    pieces { Settings.standard with dataName := name } text = Piece.onePass [] text.toList := by
  rw [pieces, Piece.find_standard]
  exact Piece.all_eq_onePass (l := []) none fun i hi => absurd hi (Nat.not_lt_zero i)

end Template

end Stencil
