import Stencil.Settings.Basic
import Stencil.Template.Piece
import Mathlib.Data.List.Infix

/-!
# Pieces — the standard delimiters

The standard delimiters cut a text at its directives.  Text in which no directive opens is one piece,
and where a directive opens it goes on to the first closing marks (`all_cuts`).
-/

namespace Stencil

/-! ### Two characters in a text -/

/-- Whether two characters stand next to each other nowhere in a text. -/
def Avoids (a b : Char) (cs : List Char) : Prop :=
  ¬ [a, b] <:+: cs

instance (a b : Char) (cs : List Char) : Decidable (Avoids a b cs) :=
  inferInstanceAs (Decidable (¬ [a, b] <:+: cs))

namespace Avoids

variable {a b c : Char} {cs ds : List Char}

theorem not_prefix (h : Avoids a b cs) : ¬ [a, b] <+: cs :=
  fun hp => h hp.isInfix

theorem drop (h : Avoids a b cs) (n : Nat) : Avoids a b (cs.drop n) :=
  fun hi => h (hi.trans (List.drop_suffix n cs).isInfix)

theorem tail (h : Avoids a b (c :: cs)) : Avoids a b cs :=
  fun hi => h (hi.trans (List.suffix_cons c cs).isInfix)

theorem nil (a b : Char) : Avoids a b [] := by
  intro h
  have := h.length_le
  simp at this

/-- A character in front that is not the first of the two. -/
theorem cons (hc : c ≠ a) (h : Avoids a b cs) : Avoids a b (c :: cs) := by
  intro hi
  rcases List.infix_cons_iff.mp hi with hp | hi
  · exact hc (List.cons_prefix_cons.mp hp).1.symm
  · exact h hi

/-- A text in front without the first of the two. -/
theorem of_append (ha : a ∉ cs) (h : Avoids a b ds) : Avoids a b (cs ++ ds) := by
  induction cs with
  | nil => exact h
  | cons c cs ih =>
      exact cons (fun e => ha (e ▸ List.mem_cons_self))
        (ih fun hm => ha (List.mem_cons_of_mem _ hm))

theorem of_not_mem (ha : a ∉ cs) : Avoids a b cs := by
  have := of_append ha (nil a b)
  rwa [List.append_nil] at this

/-- The two characters do not begin at the front of a text that goes on with another character than
the second. -/
theorem not_prefix_append (h : Avoids a b cs) (hne : cs ≠ []) (hd : ds.head? ≠ some b) :
    ¬ [a, b] <+: cs ++ ds := by
  intro hp
  cases cs with
  | nil => exact hne rfl
  | cons c cs =>
      obtain ⟨ha, hb⟩ := List.cons_prefix_cons.mp hp
      cases cs with
      | nil =>
          cases ds with
          | nil => exact absurd hb.length_le (by simp)
          | cons d ds => exact hd (congrArg some (List.cons_prefix_cons.mp hb).1.symm)
      | cons d cs =>
          have hb : b = d := (List.cons_prefix_cons.mp hb).1
          exact h ⟨[], cs, by rw [ha, hb]; rfl⟩

theorem not_prefix_drop_append (h : Avoids a b cs) (hd : ds.head? ≠ some b) {n : Nat}
    (hn : n < cs.length) : ¬ [a, b] <+: (cs ++ ds).drop n := by
  have hne : cs.drop n ≠ [] := fun e =>
    absurd (List.drop_eq_nil_iff.mp e) (Nat.not_le_of_lt hn)
  rw [List.drop_append_of_le_length (Nat.le_of_lt hn)]
  exact (h.drop n).not_prefix_append hne hd

/-- Two texts, the second of which does not begin with the second character. -/
theorem append (h : Avoids a b cs) (h' : Avoids a b ds) (hd : ds.head? ≠ some b) :
    Avoids a b (cs ++ ds) := by
  induction cs with
  | nil => exact h'
  | cons c cs ih =>
      intro hi
      rcases List.infix_cons_iff.mp hi with hp | hi
      · exact h.not_prefix_append (List.cons_ne_nil c cs) hd hp
      · exact ih h.tail hi

end Avoids

/-! ### Matching the standard delimiters -/

namespace Pattern
open Delimiter

theorem run_sequenceOf (p : Pattern) {ps : List Pattern} (h : ps ≠ [])
    (next : Progress → Option Progress) (q : Progress) :
    (sequenceOf (p :: ps)).run next q = p.run (fun r => (sequenceOf ps).run next r) q := by
  cases ps with
  | nil => exact absurd rfl h
  | cons p' ps => rfl

theorem run_char (s : CharSet) (next : Progress → Option Progress) (before : Option Char) (c : Char)
    (rest : List Char) (passed : Nat) (groups : List (Nat × Span)) :
    (char s).run next ⟨⟨before, c :: rest⟩, passed, groups⟩ =
      if s.has c then next ⟨⟨some c, rest⟩, passed + 1, groups⟩ else none := rfl

/-- Marks match if they stand there. -/
theorem run_marks (l : List Char) {ps : List Pattern} (h : ps ≠ [])
    (next : Progress → Option Progress) (place : Place) (passed : Nat) (groups : List (Nat × Span)) :
    (sequenceOf (l.map (fun c => .char (.one c)) ++ ps)).run next ⟨place, passed, groups⟩ =
      if l.isPrefixOf place.rest then
        (sequenceOf ps).run next ⟨place.advance l.length, passed + l.length, groups⟩
      else none := by
  induction l generalizing place passed with
  | nil => rw [List.isPrefixOf_nil_left, if_pos rfl]; rfl
  | cons c l ih =>
      obtain ⟨before, rest⟩ := place
      rw [List.map_cons, List.cons_append, run_sequenceOf _ (by simp [h])]
      cases rest with
      | nil => rfl
      | cons d rest =>
          rw [run_char]
          by_cases hd : d = c
          · subst hd
            rw [if_pos (by simp [CharSet.has]), ih]
            simp only [List.isPrefixOf_cons_cons, beq_self_eq_true, Bool.true_and, List.length_cons,
              Nat.add_assoc, Nat.add_comm 1]
            rfl
          · have hd' : c ≠ d := fun e => hd e.symm
            rw [if_neg (by simp [CharSet.has, hd]), if_neg (by simp [List.isPrefixOf, hd'])]

/-- The closing marks match if they stand there. -/
theorem run_closing (place : Place) (passed : Nat) (groups : List (Nat × Span)) :
    (sequenceOf (marks "%>")).run some ⟨place, passed, groups⟩ =
      if ['%', '>'].isPrefixOf place.rest then some ⟨place.advance 2, passed + 2, groups⟩
      else none := by
  obtain ⟨before, rest⟩ := place
  show (char (.one '%')).run (fun q => (char (.one '>')).run some q) _ = _
  cases rest with
  | nil => rfl
  | cons c rest =>
      rw [run_char]
      by_cases hc : c = '%'
      · subst hc
        rw [if_pos (by simp [CharSet.has])]
        cases rest with
        | nil => rfl
        | cons d rest =>
            rw [run_char]
            by_cases hd : d = '>'
            · subst hd
              rfl
            · rw [if_neg (by simp [CharSet.has, hd]), if_neg]
              simpa [List.isPrefixOf] using fun e : '>' = d => hd e.symm
      · rw [if_neg (by simp [CharSet.has, hc]), if_neg]
        simpa [List.isPrefixOf] using fun e : '%' = c => absurd e.symm hc

/-- What follows a lazy repetition comes as early as it can. -/
theorem onwards_anyChar {next : Progress → Option Progress} {groups : List (Nat × Span)}
    {r : Progress} (inner : List Char) {after : List Char} {before : Option Char} {passed left : Nat}
    (hleft : inner.length ≤ left)
    (hno : ∀ i < inner.length, ∀ b, next ⟨⟨b, (inner ++ after).drop i⟩, passed + i, groups⟩ = none)
    (hyes : ∀ b, next ⟨⟨b, after⟩, passed + inner.length, groups⟩ = some r) :
    Matcher.onwards (char anyChar).run false next left ⟨⟨before, inner ++ after⟩, passed, groups⟩ =
      some r := by
  induction inner generalizing before passed left with
  | nil =>
      have hyes := hyes before
      cases left with
      | zero => exact hyes
      | succ left =>
          rw [Matcher.onwards, prefer, if_neg (by decide)]
          simp only [List.nil_append, List.length_nil, Nat.add_zero] at hyes ⊢
          rw [hyes]
  | cons c inner ih =>
      obtain ⟨left, rfl⟩ : ∃ n, left = n + 1 := ⟨left - 1, by simp at hleft; omega⟩
      have hstop := hno 0 (Nat.zero_lt_succ _) before
      rw [List.drop_zero, Nat.add_zero] at hstop
      rw [Matcher.onwards, prefer, if_neg (by decide), hstop]
      rw [List.cons_append, run_char, if_pos (has_anyChar c), if_pos (Nat.lt_succ_self _)]
      refine ih (Nat.le_of_succ_le_succ hleft) (fun i hi b => ?_) fun b => ?_
      · have := hno (i + 1) (Nat.succ_lt_succ hi) b
        rwa [List.cons_append, List.drop_succ_cons, Nat.add_comm i, ← Nat.add_assoc] at this
      · have := hyes b
        rwa [List.length_cons, Nat.add_comm inner.length, ← Nat.add_assoc] at this

/-- How the directives of a kind open. -/
def opening (kind : Directive) : List Char :=
  ("<%" ++ standardMark kind).toList

theorem matchAt_none {kind : Directive} {place : Place} (h : ¬ opening kind <+: place.rest) :
    (standardPattern kind).matchAt place = none := by
  have hno : (opening kind).isPrefixOf place.rest = false :=
    Bool.eq_false_iff.mpr fun e => h (List.isPrefixOf_iff_prefix.mp e)
  rw [matchAt, standardPattern, List.append_assoc]
  exact (run_marks (opening kind) (by simp) some place 0 []).trans (by rw [hno]; rfl)

theorem advance_append_singleton (before : Option Char) (l : List Char) (c : Char)
    (rest : List Char) : (Place.mk before (l ++ [c] ++ rest)).advance (l ++ [c]).length =
      ⟨some c, rest⟩ := by
  induction l generalizing before with
  | nil => rfl
  | cons d l ih => exact ih (some d)

theorem advance_append (before : Option Char) (l rest : List Char) :
    ∃ b, (Place.mk before (l ++ rest)).advance l.length = ⟨b, rest⟩ := by
  induction l generalizing before with
  | nil => exact ⟨before, rfl⟩
  | cons c l ih => exact ih (some c)

/-- **A directive matches up to the first closing marks.** -/
theorem matchAt_directive (kind : Directive) {c : Char} {inner more : List Char}
    (h : Avoids '%' '>' inner) (before : Option Char) :
    (standardPattern kind).matchAt ⟨before, opening kind ++ c :: inner ++ '%' :: '>' :: more⟩ =
      some ⟨⟨some '>', more⟩, (opening kind ++ c :: inner).length + 2,
        [(1, ⟨c :: inner ++ '%' :: '>' :: more, inner.length + 1⟩)]⟩ := by
  have hclose : ∀ i < inner.length, ¬ ['%', '>'] <+: (inner ++ '%' :: '>' :: more).drop i :=
    fun i hi => h.not_prefix_drop_append (by simp) hi
  have hopen : (opening kind).isPrefixOf (opening kind ++ (c :: inner ++ '%' :: '>' :: more)) = true :=
    List.isPrefixOf_iff_prefix.mpr (List.prefix_append _ _)
  obtain ⟨b, hb⟩ := advance_append before (opening kind) (c :: inner ++ '%' :: '>' :: more)
  rw [List.append_assoc, matchAt, standardPattern, List.append_assoc]
  refine (run_marks (opening kind) (by simp) some _ 0 []).trans ?_
  rw [if_pos hopen, hb, List.singleton_append, run_sequenceOf _ (by simp [marks])]
  show (char anyChar).run (fun q => Matcher.afterRound _ false _ _ q) ⟨⟨b, c :: _⟩, _, _⟩ = _
  rw [run_char, if_pos (has_anyChar c), Matcher.afterRound, if_pos (Nat.lt_succ_self _)]
  refine onwards_anyChar inner (by simp) (fun i hi b => ?_) fun b => ?_
  · exact (run_closing _ _ _).trans
      (if_neg fun e => hclose i hi (List.isPrefixOf_iff_prefix.mp e))
  · refine (run_closing _ _ _).trans ((if_pos rfl).trans ?_)
    simp [Place.advance]
    omega

/-! ### Searching -/

section
variable {pattern : Pattern} {before : Option Char} {cs : List Char} {k : Nat}

theorem findFrom_of_match {p : Progress} (h : pattern.matchAt ⟨before, cs⟩ = some p) :
    pattern.findFrom k before cs = some ⟨k, p.passed, p.groups⟩ := by
  cases cs <;> simp only [findFrom, h, Option.map_some]

theorem le_of_findFrom {hit : Hit} (h : pattern.findFrom k before cs = some hit) :
    k ≤ hit.skipped := by
  induction cs generalizing k before with
  | nil =>
      obtain ⟨p, -, rfl⟩ := Option.map_eq_some_iff.mp h
      exact Nat.le_refl k
  | cons c cs ih =>
      rw [findFrom] at h
      split at h
      · cases h
        exact Nat.le_refl k
      · exact Nat.le_of_succ_le (ih h)

theorem lt_of_findFrom (hno : pattern.matchAt ⟨before, cs⟩ = none) {hit : Hit}
    (h : pattern.findFrom k before cs = some hit) : k < hit.skipped := by
  cases cs with
  | nil =>
      rw [findFrom, hno] at h
      cases h
  | cons c cs =>
      rw [findFrom, hno] at h
      exact le_of_findFrom h

theorem findFrom_skip {l : List Char}
    (h : ∀ i < l.length, ∀ b, pattern.matchAt ⟨b, (l ++ cs).drop i⟩ = none) :
    ∃ b, pattern.findFrom k before (l ++ cs) = pattern.findFrom (k + l.length) b cs := by
  induction l generalizing k before with
  | nil => exact ⟨before, rfl⟩
  | cons c l ih =>
      have hno := h 0 (Nat.zero_lt_succ _) before
      obtain ⟨b, hb⟩ := @ih (some c) (k + 1) fun i hi b => h (i + 1) (Nat.succ_lt_succ hi) b
      refine ⟨b, ?_⟩
      rw [List.drop_zero, List.cons_append] at hno
      rw [List.cons_append, findFrom, hno, List.length_cons, Nat.add_comm l.length, ← Nat.add_assoc]
      exact hb

end

end Pattern

namespace Piece
open Pattern Delimiter

theorem skipped_of_firstNonEmpty {search : Search} {place : Place} {hit : Hit}
    (h : firstNonEmpty search place = some hit) :
    ∃ first, search place = some first ∧ first.skipped ≤ hit.skipped := by
  rw [firstNonEmpty] at h
  split at h
  · cases h
  · rename_i first hfirst
    refine ⟨first, hfirst, ?_⟩
    split at h
    · split at h
      · obtain ⟨found, -, rfl⟩ := Option.map_eq_some_iff.mp h
        simp only [shift]
        omega
      · cases h
    · cases h
      exact Nat.le_refl _

theorem firstNonEmpty_of_length {search : Search} {place : Place} {hit : Hit}
    (h : search place = some hit) (hlength : hit.length ≠ 0) :
    firstNonEmpty search place = some hit := by
  rw [firstNonEmpty, h]
  simp only [if_neg hlength]

/-- The search for standard directives. -/
def standardSearch (kind : Directive) : Search :=
  (standardPattern kind).find?

theorem find_standard (name : Option String) :
    Settings.find { Settings.standard with dataName := name } = standardSearch := by
  funext kind place
  cases kind <;> rfl

theorem opens_of_opening {kind : Directive} {cs : List Char} (h : opening kind <+: cs) :
    ['<', '%'] <+: cs :=
  List.IsPrefix.trans (by cases kind <;> exact ⟨_, rfl⟩) h

/-- No directive opens in text that avoids its marks. -/
theorem matchAt_verbatim {l cs : List Char} (h : Avoids '<' '%' l) (hcs : cs.head? ≠ some '%')
    (kind : Directive) {i : Nat} (hi : i < l.length) (b : Option Char) :
    (standardPattern kind).matchAt ⟨b, (l ++ cs).drop i⟩ = none := by
  exact matchAt_none fun ho => h.not_prefix_drop_append hcs hi (opens_of_opening ho)

/-- How a directive is written: its opening marks, what is inside, and the closing marks. -/
def written (kind : Directive) (inner : List Char) : List Char :=
  opening kind ++ (inner ++ ['%', '>'])

/-- **What can be inside a directive**: something without the closing marks.  Statements do not begin
with the mark of another kind. -/
structure Fits (kind : Directive) (inner : List Char) : Prop where
  ne_nil : inner ≠ []
  unmarked : Avoids '%' '>' inner
  first : kind = .evaluate → inner.head? ≠ some '-' ∧ inner.head? ≠ some '='

theorem head?_written (kind : Directive) (inner more : List Char) :
    (written kind inner ++ more).head? = some '<' := by
  cases kind <;> rfl

theorem inner_of_group {kind : Directive} {hit : Hit} {cs : List Char}
    (h : hit.group? 1 = some cs) (hne : cs ≠ []) : inner kind hit = cs := by
  cases kind <;> cases cs <;> first | exact absurd rfl hne | simp only [inner, h, Option.getD_some]

section
variable {l text more : List Char} {before : Option Char} {kind : Directive}

/-- Where a directive opens, none of another kind does, except that statements seem to. -/
theorem Fits.not_opening {other : Directive} (hm : Fits kind text) (hne : other ≠ kind)
    (hother : other ≠ .evaluate) : ¬ opening other <+: written kind text ++ more := by
  obtain ⟨c, cs, rfl⟩ := List.exists_cons_of_ne_nil hm.ne_nil
  intro hp
  cases kind with
  | evaluate =>
      obtain ⟨hminus, hequal⟩ := hm.first rfl
      have hc : (opening other).getLast? = some c := by
        cases other with
        | evaluate => exact absurd rfl hother
        | escape | interpolate =>
            exact congrArg some
              (List.cons_prefix_cons.mp (List.cons_prefix_cons.mp (List.cons_prefix_cons.mp hp).2).2).1
      cases other with
      | evaluate => exact absurd rfl hother
      | escape => exact hminus hc.symm
      | interpolate => exact hequal hc.symm
  | escape | interpolate =>
      cases other <;> first | exact hne rfl | exact hother rfl | skip
      exact absurd
        (List.cons_prefix_cons.mp (List.cons_prefix_cons.mp (List.cons_prefix_cons.mp hp).2).2).1
        (by decide)

/-- Where a directive opens, no search ends before it, and none for a kind that does not open
there. -/
theorem le_of_firstNonEmpty (hl : Avoids '<' '%' l) {other : Directive} {hit : Hit}
    (h : firstNonEmpty (standardSearch other)
      ⟨before, l ++ (written kind text ++ more)⟩ = some hit) :
    l.length ≤ hit.skipped ∧
      (¬ opening other <+: written kind text ++ more → l.length < hit.skipped) := by
  obtain ⟨first, hfirst, hle⟩ := skipped_of_firstNonEmpty h
  have hhead : (written kind text ++ more).head? ≠ some '%' := by
    rw [head?_written]
    decide
  rw [standardSearch, Pattern.find?] at hfirst
  obtain ⟨b, hb⟩ := @findFrom_skip (standardPattern other) before (written kind text ++ more) 0 l
    fun i hi b => matchAt_verbatim hl hhead other hi b
  rw [hb, Nat.zero_add] at hfirst
  refine ⟨Nat.le_trans (le_of_findFrom hfirst) hle, fun hno => ?_⟩
  exact Nat.lt_of_lt_of_le (lt_of_findFrom (matchAt_none hno) hfirst) hle

theorem firstNonEmpty_directive (hl : Avoids '<' '%' l) (hm : Fits kind text) :
    ∃ hit, firstNonEmpty (standardSearch kind)
        ⟨before, l ++ (written kind text ++ more)⟩ = some hit ∧
      hit.skipped = l.length ∧ hit.length = (written kind text).length ∧
      inner kind hit = text := by
  have hhead : (written kind text ++ more).head? ≠ some '%' := by
    rw [head?_written]
    decide
  obtain ⟨b, hb⟩ := @findFrom_skip (standardPattern kind) before (written kind text ++ more) 0 l
    fun i hi b => matchAt_verbatim hl hhead kind hi b
  obtain ⟨c, cs, rfl⟩ := List.exists_cons_of_ne_nil hm.ne_nil
  have hmatch := @matchAt_directive kind c _ more hm.unmarked.tail b
  have hcs : written kind (c :: cs) ++ more = opening kind ++ c :: cs ++ '%' :: '>' :: more := by
    simp only [written, List.append_assoc, List.cons_append, List.nil_append]
  rw [← hcs] at hmatch
  have hfind := @findFrom_of_match _ _ _ (0 + l.length) _ hmatch
  refine ⟨_, firstNonEmpty_of_length (hb.trans hfind) (by simp),
    Nat.zero_add _, ?_, ?_⟩
  · simp [written]
    omega
  · exact inner_of_group (congrArg some (List.take_left' (by simp))) (by simp)

/-- **The next directive.** -/
theorem next?_directive (hl : Avoids '<' '%' l) (hm : Fits kind text) :
    ∃ hit, next? standardSearch ⟨before, l ++ (written kind text ++ more)⟩ =
        some (kind, hit) ∧
      hit.skipped = l.length ∧ hit.length = (written kind text).length ∧
      inner kind hit = text := by
  obtain ⟨hit, hhit, hskipped, hlength, hinner⟩ :=
    @firstNonEmpty_directive l text more before kind hl hm
  refine ⟨hit, ?_, hskipped, hlength, hinner⟩
  have others := fun other found h => @le_of_firstNonEmpty l text more before kind hl other found h
  generalize Place.mk before (l ++ (written kind text ++ more)) = place at hhit others ⊢
  -- kinds that come before find nothing here, and kinds that come after find nothing sooner
  have sooner : ∀ best : Option (Directive × Hit), (∀ p ∈ best, l.length < p.2.skipped) →
      earlier best kind (firstNonEmpty (standardSearch kind) place) = some (kind, hit) := by
    intro best hbest
    rw [hhit]
    cases best with
    | none => rfl
    | some p => rw [earlier, hskipped, if_pos (hbest p rfl)]
  have former : ∀ (best : Option (Directive × Hit)) (other : Directive),
      (∀ p ∈ best, l.length < p.2.skipped) → ¬ opening other <+: written kind text ++ more →
      ∀ p ∈ earlier best other (firstNonEmpty (standardSearch other) place),
        l.length < p.2.skipped := by
    intro best other hbest hno p hp
    cases h : firstNonEmpty (standardSearch other) place with
    | none =>
        rw [h] at hp
        cases best <;> exact hbest p hp
    | some found =>
        have hlt := (others other found h).2 hno
        rw [h] at hp
        cases best with
        | none => cases hp; exact hlt
        | some q =>
            rw [earlier] at hp
            split at hp
            · cases hp; exact hlt
            · cases hp; exact hbest _ rfl
  have latter : ∀ other : Directive, earlier (some (kind, hit)) other
      (firstNonEmpty (standardSearch other) place) = some (kind, hit) := by
    intro other
    cases h : firstNonEmpty (standardSearch other) place with
    | none => rfl
    | some found =>
        rw [earlier, hskipped, if_neg (Nat.not_lt_of_le (others other found h).1)]
  have nothing : ∀ p ∈ (none : Option (Directive × Hit)), l.length < p.2.skipped :=
    fun p hp => by cases hp
  rw [next?, Directive.all, List.foldl_cons, List.foldl_cons, List.foldl_cons, List.foldl_nil]
  cases kind with
  | escape => rw [sooner none nothing, latter, latter]
  | interpolate =>
      rw [sooner _ (former none .escape nothing (hm.not_opening (by decide) (by decide))), latter]
  | evaluate =>
      rw [sooner _ (former _ .interpolate (former none .escape nothing ?_) ?_)]
      · exact hm.not_opening (by decide) (by decide)
      · exact hm.not_opening (by decide) (by decide)

/-- **A directive is a piece.** -/
theorem all_directive (hl : Avoids '<' '%' l) (hm : Fits kind text) :
    all standardSearch ⟨before, l ++ (written kind text ++ more)⟩ =
      ofText l ++ .directive kind text ::
        all standardSearch ⟨some '>', more⟩ := by
  obtain ⟨hit, hnext, hskipped, hlength, hinner⟩ := @next?_directive l text more before kind hl hm
  have hpos : 0 < hit.length := by
    rw [hlength, written, ← List.append_assoc, List.length_append]
    exact Nat.lt_add_left _ (by decide)
  have hrest : l ++ (written kind text ++ more) ≠ [] := by simp [written]
  have hadvance : (Place.mk before (l ++ (written kind text ++ more))).advance
      (hit.skipped + hit.length) = ⟨some '>', more⟩ := by
    have := advance_append_singleton before
      (l ++ (opening kind ++ text ++ ['%'])) '>' more
    rw [hskipped, hlength, ← List.length_append, ← List.append_assoc]
    simpa only [written, List.append_assoc, List.cons_append, List.nil_append] using this
  rw [all, hnext]
  simp only [hpos, hrest, ne_eq, not_false_eq_true, and_self, if_true, hinner, hadvance]
  rw [hskipped, List.take_left]

/-- Text without directives. -/
theorem next?_verbatim (hl : Avoids '<' '%' l) :
    next? standardSearch ⟨before, l⟩ = none := by
  have hnone : ∀ other, firstNonEmpty (standardSearch other) ⟨before, l⟩ = none := by
    intro other
    refine Option.eq_none_iff_forall_ne_some.mpr fun hit h => ?_
    obtain ⟨first, hfirst, -⟩ := skipped_of_firstNonEmpty h
    obtain ⟨b, hb⟩ := @findFrom_skip (standardPattern other) before [] 0 l
      fun i hi b => matchAt_verbatim hl (by simp) other hi b
    rw [List.append_nil] at hb
    rw [standardSearch, Pattern.find?, hb, Pattern.findFrom, matchAt_none] at hfirst
    · cases hfirst
    · intro h
      have := (opens_of_opening h).length_le
      simp at this
  rw [next?, Directive.all, List.foldl_cons, List.foldl_cons, List.foldl_cons, List.foldl_nil,
    hnone, hnone, hnone]
  rfl

end

/-! ### Cutting a text -/

/-- A directive, and the text after it. -/
structure Cut where
  kind : Directive
  inner : List Char
  after : List Char

namespace Cut

/-- How a directive and the text after it are written. -/
def text (cut : Cut) : List Char :=
  written cut.kind cut.inner ++ cut.after

/-- The pieces of a directive and the text after it. -/
def pieces (cut : Cut) : List Piece :=
  .directive cut.kind cut.inner :: ofText cut.after

/-- Whether a directive ends at its closing marks, and no directive opens in the text after it. -/
structure Clear (cut : Cut) : Prop where
  fits : Fits cut.kind cut.inner
  after : Avoids '<' '%' cut.after

end Cut

/-- **Texts are cut at their directives**, each of which is a piece, and so is the text between two
of them. -/
theorem all_cuts {first : List Char} (hfirst : Avoids '<' '%' first) {cuts : List Cut}
    (hcuts : ∀ cut ∈ cuts, cut.Clear) (before : Option Char) :
    all standardSearch ⟨before, first ++ cuts.flatMap Cut.text⟩ =
      ofText first ++ cuts.flatMap Cut.pieces := by
  induction cuts generalizing first before with
  | nil =>
      rw [List.flatMap_nil, List.append_nil, all, next?_verbatim hfirst]
      exact (List.append_nil _).symm
  | cons cut cuts ih =>
      have hcut := hcuts cut List.mem_cons_self
      rw [List.flatMap_cons, Cut.text, List.append_assoc, all_directive hfirst hcut.fits,
        ih hcut.after (fun c hc => hcuts c (List.mem_cons_of_mem _ hc)), List.flatMap_cons]
      rfl

end Piece

end Stencil
