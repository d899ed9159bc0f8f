import Stencil.Settings.Basic
import Stencil.Template.Piece
import Mathlib.Data.List.Basic

/-!
# Pieces — searches and the directive that comes next

A search is *leftmost* if what it finds does not depend on where it began before it: from every place up
to the beginning of a match it finds the match, and where it finds none there is none further on.  The
search for a pattern is (`leftmost_find?`), since a pattern is tried at one place after the other.

A search *reports* a match at a distance if it finds the match there and the match is not empty.  The
directive that comes next is the match that is reported nearest, and of those that are reported together
the one whose kind comes first (`isFirst_next?`), although each kind is searched for on its own and the
search for it steps over empty matches by one character.
-/

namespace Stencil

/-! ### Places -/

namespace Place

theorem advance_nil (before : Option Char) (count : Nat) :
    (Place.mk before []).advance count = ⟨before, []⟩ := by
  cases count <;> rfl

theorem advance_add (place : Place) (count more : Nat) :
    place.advance (count + more) = (place.advance count).advance more := by
  induction count generalizing place with
  | zero => rw [Nat.zero_add]; rfl
  | succ count ih =>
      obtain ⟨before, rest⟩ := place
      cases rest with
      | nil => rw [advance_nil, advance_nil, advance_nil]
      | cons c rest =>
          rw [Nat.succ_add]
          exact ih ⟨some c, rest⟩

end Place

/-! ### What a match passes -/

/-- The characters passed and those left. -/
def Progress.total (p : Progress) : Nat :=
  p.passed + p.place.rest.length

/-- Matchers that count each character they pass. -/
def Matcher.Counts (m : Matcher) : Prop :=
  ∀ next p q, m next p = some q → ∃ p', p'.total = p.total ∧ next p' = some q

namespace Matcher

variable {body : Matcher}

theorem prefer_eq_some {greedy : Bool} {more stop : Unit → Option Progress} {q : Progress}
    (h : prefer greedy more stop = some q) : more () = some q ∨ stop () = some q := by
  cases greedy with
  | true =>
      simp only [prefer, if_true] at h
      split at h
      · exact .inl (by rename_i hmore; rw [hmore, h])
      · exact .inr h
  | false =>
      simp only [prefer, Bool.false_eq_true, if_false] at h
      split at h
      · exact .inr (by rename_i hstop; rw [hstop, h])
      · exact .inl h

theorem counts_here : Counts fun next p => next p :=
  fun _ p _ h => ⟨p, rfl, h⟩

theorem Counts.sequence {first second : Matcher} (h₁ : first.Counts) (h₂ : second.Counts) :
    Counts fun next p => first (fun q => second next q) p := by
  intro next p q h
  obtain ⟨p₁, ht₁, h⟩ := h₁ _ _ _ h
  obtain ⟨p₂, ht₂, h⟩ := h₂ _ _ _ h
  exact ⟨p₂, ht₂.trans ht₁, h⟩

theorem Counts.prefer {greedy : Bool} {more stop : Matcher} (hmore : more.Counts)
    (hstop : stop.Counts) :
    Counts fun next p => Stencil.prefer greedy (fun _ => more next p) (fun _ => stop next p) := by
  intro next p q h
  rcases prefer_eq_some h with h | h
  · exact hmore _ _ _ h
  · exact hstop _ _ _ h

theorem Counts.rounds (h : body.Counts) (count : Nat) : (rounds body count).Counts := by
  induction count with
  | zero => exact counts_here
  | succ count ih => exact h.sequence ih

theorem Counts.upTo (h : body.Counts) (greedy : Bool) (count : Nat) :
    (upTo body greedy count).Counts := by
  induction count with
  | zero => exact counts_here
  | succ count ih => exact (h.sequence ih).prefer counts_here

theorem Counts.onwards (h : body.Counts) (greedy : Bool) (left : Nat) :
    Counts fun next p => onwards body greedy next left p := by
  induction left with
  | zero => exact counts_here
  | succ left ih =>
      intro next p q heq
      rcases prefer_eq_some heq with heq | heq
      · obtain ⟨p₁, ht₁, heq⟩ := h _ _ _ heq
        split at heq
        · obtain ⟨p₂, ht₂, heq⟩ := ih _ _ _ heq
          exact ⟨p₂, ht₂.trans ht₁, heq⟩
        · cases heq
      · exact ⟨p, rfl, heq⟩

theorem Counts.oneOrMore (h : body.Counts) (greedy : Bool) : (oneOrMore body greedy).Counts := by
  intro next p q heq
  obtain ⟨p₁, ht₁, heq⟩ := h _ _ _ heq
  rw [afterRound] at heq
  split at heq
  · obtain ⟨p₂, ht₂, heq⟩ := h.onwards greedy _ _ _ _ heq
    exact ⟨p₂, ht₂.trans ht₁, heq⟩
  · exact ⟨p₁, ht₁, heq⟩

theorem Counts.many (h : body.Counts) (nullable greedy : Bool) :
    (many body nullable greedy).Counts := by
  intro next p q heq
  rw [Matcher.many] at heq
  split at heq
  · exact (h.oneOrMore greedy).prefer counts_here _ _ _ heq
  · exact h.onwards greedy _ _ _ _ heq

end Matcher

namespace Pattern

theorem counts_char (s : CharSet) : (char s).run.Counts := by
  intro next p q h
  obtain ⟨⟨before, rest⟩, passed, groups⟩ := p
  cases rest with
  | nil => cases h
  | cons c rest =>
      simp only [run] at h
      split at h
      · refine ⟨_, ?_, h⟩
        simp only [Progress.total, List.length_cons]
        omega
      · cases h

/-- **A match passes the characters that it counts.** -/
theorem counts_run (pattern : Pattern) : pattern.run.Counts := by
  induction pattern with
  | empty => exact Matcher.counts_here
  | char s => exact counts_char s
  | assertion a =>
      intro next p q h
      simp only [run] at h
      split at h
      · exact ⟨p, rfl, h⟩
      · cases h
  | group index body ih =>
      intro next p q h
      obtain ⟨p', ht, h⟩ := ih _ _ _ h
      refine ⟨_, ?_, h⟩
      exact ht
  | sequence first second ih₁ ih₂ => exact ih₁.sequence ih₂
  | choice first second ih₁ ih₂ => exact ih₁.prefer ih₂
  | repetition body least most greedy ih =>
      match most, least with
      | none, 0 => exact ih.many _ _
      | none, least + 1 => exact (ih.rounds least).sequence (ih.oneOrMore greedy)
      | some most, least => exact (ih.rounds least).sequence (ih.upTo greedy (most - least))

theorem passed_le_of_matchAt {pattern : Pattern} {place : Place} {p : Progress}
    (h : pattern.matchAt place = some p) : p.passed ≤ place.rest.length := by
  obtain ⟨p', ht, hp⟩ := counts_run pattern _ _ _ h
  cases hp
  simp only [Progress.total] at ht
  omega

end Pattern

namespace Piece

/-! ### Leftmost searches -/

/-- **Leftmost searches.**  A match lies in the text.  From every place up to its beginning it is the
match that is found, and where none is found there is none further on. -/
structure Leftmost (search : Search) : Prop where
  within : ∀ {place hit}, search place = some hit → hit.skipped + hit.length ≤ place.rest.length
  same : ∀ {place hit}, search place = some hit → ∀ n ≤ hit.skipped,
    search (place.advance n) = some { hit with skipped := hit.skipped - n }
  none : ∀ {place}, search place = none → ∀ n, search (place.advance n) = none

/-- A search that finds nothing. -/
theorem leftmost_nothing : Leftmost fun _ => none :=
  ⟨nofun, nofun, fun _ _ => rfl⟩

/-- The search from a place on: the match that begins there, or else what is found from the next place
on. -/
theorem findFrom_shift (pattern : Pattern) (k : Nat) (before : Option Char) (cs : List Char) :
    pattern.findFrom k before cs = (pattern.findFrom 0 before cs).map fun hit => shift hit k := by
  induction cs generalizing k before with
  | nil =>
      simp only [Pattern.findFrom, Option.map_map]
      rfl
  | cons c cs ih =>
      simp only [Pattern.findFrom]
      cases pattern.matchAt ⟨before, c :: cs⟩ with
      | some p => rfl
      | none =>
          simp only
          rw [ih (k + 1), ih (0 + 1), Option.map_map]
          congr 1
          funext hit
          simp only [shift, Function.comp, Nat.zero_add, Nat.add_assoc]

theorem find?_of_match {pattern : Pattern} {place : Place} {p : Progress}
    (h : pattern.matchAt place = some p) : pattern.find? place = some ⟨0, p.passed, p.groups⟩ := by
  obtain ⟨before, rest⟩ := place
  cases rest <;> simp only [Pattern.find?, Pattern.findFrom, h, Option.map_some]

theorem find?_cons {pattern : Pattern} {before : Option Char} {c : Char} {rest : List Char}
    (h : pattern.matchAt ⟨before, c :: rest⟩ = none) :
    pattern.find? ⟨before, c :: rest⟩ = (pattern.find? ⟨some c, rest⟩).map fun hit => shift hit 1 := by
  simp only [Pattern.find?, Pattern.findFrom, h]
  exact findFrom_shift pattern 1 (some c) rest

/-- **The search for a pattern is leftmost.** -/
theorem leftmost_find? (pattern : Pattern) : Leftmost pattern.find? := by
  -- where a match begins, the search is there already
  have here : ∀ {place hit}, pattern.matchAt place ≠ none → pattern.find? place = some hit →
      hit.skipped = 0 ∧ hit.length ≤ place.rest.length := by
    intro place hit hmatch h
    obtain ⟨p, hp⟩ := Option.ne_none_iff_exists'.mp hmatch
    rw [find?_of_match hp] at h
    cases h
    exact ⟨rfl, Pattern.passed_le_of_matchAt hp⟩
  have stopped : ∀ {before hit}, pattern.find? ⟨before, []⟩ = some hit →
      pattern.matchAt ⟨before, []⟩ ≠ none := by
    intro before hit h hnone
    simp only [Pattern.find?, Pattern.findFrom, hnone, Option.map_none, reduceCtorEq] at h
  refine ⟨fun {place hit} h => ?_, fun {place hit} h n hn => ?_, fun {place} h n => ?_⟩
  · obtain ⟨before, rest⟩ := place
    induction rest generalizing before hit with
    | nil =>
        obtain ⟨hskipped, hlength⟩ := here (stopped h) h
        omega
    | cons c rest ih =>
        by_cases hmatch : pattern.matchAt ⟨before, c :: rest⟩ = none
        · rw [find?_cons hmatch] at h
          obtain ⟨found, hfound, rfl⟩ := Option.map_eq_some_iff.mp h
          have := ih _ hfound
          simp only [shift, List.length_cons]
          simp only at this
          omega
        · obtain ⟨hskipped, hlength⟩ := here hmatch h
          omega
  · obtain ⟨before, rest⟩ := place
    induction rest generalizing before hit n with
    | nil =>
        obtain ⟨hskipped, -⟩ := here (stopped h) h
        obtain rfl : n = 0 := by omega
        exact h
    | cons c rest ih =>
        cases n with
        | zero => exact h
        | succ n =>
            have hmatch : pattern.matchAt ⟨before, c :: rest⟩ = none := by
              by_contra hmatch
              have := (here hmatch h).1
              omega
            rw [find?_cons hmatch] at h
            obtain ⟨found, hfound, rfl⟩ := Option.map_eq_some_iff.mp h
            simp only [shift] at hn ⊢
            have hle : n ≤ found.skipped := by omega
            rw [Nat.add_comm 1, Nat.add_sub_add_right]
            exact ih n hle (some c) hfound
  · obtain ⟨before, rest⟩ := place
    induction rest generalizing before n with
    | nil => rwa [Place.advance_nil]
    | cons c rest ih =>
        cases n with
        | zero => exact h
        | succ n =>
            have hmatch : pattern.matchAt ⟨before, c :: rest⟩ = none := by
              by_contra hmatch
              obtain ⟨p, hp⟩ := Option.ne_none_iff_exists'.mp hmatch
              rw [find?_of_match hp] at h
              cases h
            rw [find?_cons hmatch, Option.map_eq_none_iff] at h
            exact ih n (some c) h

/-- The searches of all settings are leftmost. -/
theorem leftmost_find (settings : Settings) (kind : Directive) : Leftmost (settings.find kind) := by
  rw [show settings.find kind = fun place => (settings.delimiter kind).bind fun delimiter =>
    delimiter.pattern.find? place from rfl]
  cases settings.delimiter kind with
  | none => exact leftmost_nothing
  | some delimiter => exact leftmost_find? delimiter.pattern

/-! ### Reported matches -/

/-- **Reported matches.**  The search finds the match where it begins, and the match is not empty. -/
structure Reports (search : Search) (place : Place) (hit : Hit) : Prop where
  nonempty : 0 < hit.length
  found : search (place.advance hit.skipped) = some { hit with skipped := 0 }

namespace Reports

variable {search : Search} {place : Place} {hit other : Hit}

/-- A match that is reported some characters further on. -/
theorem shift_iff {count : Nat} :
    Reports search place (shift hit count) ↔ Reports search (place.advance count) hit := by
  constructor
  · rintro ⟨hlength, hfound⟩
    refine ⟨hlength, ?_⟩
    rw [← Place.advance_add]
    exact hfound
  · rintro ⟨hlength, hfound⟩
    refine ⟨hlength, ?_⟩
    rw [← Place.advance_add] at hfound
    exact hfound

/-- At one distance one match is reported. -/
theorem eq_of_skipped (h : Reports search place hit) (h' : Reports search place other)
    (hskipped : hit.skipped = other.skipped) : hit = other := by
  have hfound := h.found
  rw [hskipped, h'.found] at hfound
  obtain ⟨skipped, length, groups⟩ := hit
  obtain ⟨skipped', length', groups'⟩ := other
  simp only at hskipped
  cases hfound
  rw [hskipped]

/-- What is reported lies in the text. -/
theorem le_length (hs : Leftmost search) (h : Reports search place hit) :
    hit.skipped + hit.length ≤ place.rest.length := by
  have hwithin := hs.within h.found
  have hnonempty := h.nonempty
  simp only [Place.rest_advance, List.length_drop] at hwithin
  omega

/-- What is reported is not before the match that is found first. -/
theorem skipped_le (hs : Leftmost search) (h : Reports search place other)
    (hfirst : search place = some hit) : hit.skipped ≤ other.skipped := by
  by_contra hlt
  have hsame := hs.same hfirst other.skipped (by omega)
  rw [h.found] at hsame
  have := congrArg Hit.skipped (Option.some.inj hsame)
  simp only at this
  omega

/-- The match that is found first is reported unless it is empty. -/
theorem of_found (hs : Leftmost search) (hfirst : search place = some hit) (hlength : hit.length ≠ 0) :
    Reports search place hit := by
  refine ⟨Nat.pos_of_ne_zero hlength, ?_⟩
  rw [hs.same hfirst hit.skipped (Nat.le_refl _), Nat.sub_self]

/-- After an empty match all that is reported lies further on. -/
theorem skipped_lt (hs : Leftmost search) (h : Reports search place other)
    (hfirst : search place = some hit) (hlength : hit.length = 0) : hit.skipped < other.skipped := by
  refine Nat.lt_of_le_of_ne (h.skipped_le hs hfirst) fun heq => ?_
  have hsame := hs.same hfirst hit.skipped (Nat.le_refl _)
  rw [heq, h.found] at hsame
  have hempty : other.length = hit.length := (Hit.mk.inj (Option.some.inj hsame)).2.1
  have := h.nonempty
  omega

end Reports

/-- What is the nearest of the matches that a search reports. -/
def Nearest (search : Search) (place : Place) : Option Hit → Prop
  | none => ∀ hit, ¬ Reports search place hit
  | some hit => Reports search place hit ∧
      ∀ other, Reports search place other → hit.skipped ≤ other.skipped

/-- **Stepping over empty matches.**  The first match that is not empty is the nearest that is
reported. -/
theorem nearest_firstNonEmpty {search : Search} (hs : Leftmost search) (place : Place) :
    Nearest search place (firstNonEmpty search place) := by
  induction place using firstNonEmpty.induct search with
  | case1 place hnone =>
      rw [firstNonEmpty, hnone]
      intro hit h
      have := hs.none hnone hit.skipped
      rw [h.found] at this
      cases this
  | case2 place hit hfirst hlength hleft ih =>
      rw [firstNonEmpty, hfirst]
      simp only [if_pos hlength, if_pos hleft]
      -- all that is reported is reported from the place after the empty match
      have onwards : ∀ {other}, Reports search place other →
          ∃ found, other = shift found (hit.skipped + 1) ∧
            Reports search (place.advance (hit.skipped + 1)) found := by
        intro other h
        have hlt := h.skipped_lt hs hfirst hlength
        have hshift : other = shift { other with skipped := other.skipped - (hit.skipped + 1) }
            (hit.skipped + 1) := by
          obtain ⟨skipped, length, groups⟩ := other
          simp only [shift, Hit.mk.injEq, and_true]
          simp only at hlt
          omega
        exact ⟨_, hshift, Reports.shift_iff.mp (hshift ▸ h)⟩
      cases hrest : firstNonEmpty search (place.advance (hit.skipped + 1)) with
      | none =>
          rw [hrest] at ih
          intro other h
          obtain ⟨found, -, hfound⟩ := onwards h
          exact ih found hfound
      | some found =>
          rw [hrest] at ih
          refine ⟨Reports.shift_iff.mpr ih.1, fun other h => ?_⟩
          obtain ⟨further, rfl, hfurther⟩ := onwards h
          exact Nat.add_le_add_left (ih.2 further hfurther) _
  | case3 place hit hfirst hlength hleft =>
      rw [firstNonEmpty, hfirst]
      simp only [if_pos hlength, if_neg hleft]
      intro other h
      have := h.skipped_lt hs hfirst hlength
      have := h.le_length hs
      have := h.nonempty
      omega
  | case4 place hit hfirst hlength =>
      rw [firstNonEmpty, hfirst]
      simp only [if_neg hlength]
      exact ⟨.of_found hs hfirst hlength, fun other h => h.skipped_le hs hfirst⟩

/-! ### The directive that comes next -/

/-- The place of a kind in the order in which kinds win where two begin together. -/
def rank : Directive → Nat
  | .escape => 0
  | .interpolate => 1
  | .evaluate => 2

theorem rank_injective {kind other : Directive} (h : rank kind = rank other) : kind = other := by
  cases kind <;> cases other <;> first | rfl | cases h

/-- **The first directive.**  It is reported, and nothing is reported nearer, nor as near for a kind that
wins against its kind. -/
structure First (search : Directive → Search) (place : Place) (kind : Directive) (hit : Hit) :
    Prop where
  reports : Reports (search kind) place hit
  nearest : ∀ other found, Reports (search other) place found → hit.skipped ≤ found.skipped
  ties : ∀ other found, Reports (search other) place found → found.skipped = hit.skipped →
    rank kind ≤ rank other

/-- The first directive among those of some kinds. -/
def FirstOf (kinds : List Directive) (search : Directive → Search) (place : Place) :
    Option (Directive × Hit) → Prop
  | none => ∀ kind ∈ kinds, ∀ hit, ¬ Reports (search kind) place hit
  | some (kind, hit) => kind ∈ kinds ∧ Reports (search kind) place hit ∧
      ∀ other ∈ kinds, ∀ found, Reports (search other) place found →
        hit.skipped ≤ found.skipped ∧ (found.skipped = hit.skipped → rank kind ≤ rank other)

section
variable {search : Directive → Search} {place : Place}

/-- A kind that wins against none of those before. -/
theorem FirstOf.earlier {kinds : List Directive} {best : Option (Directive × Hit)} {kind : Directive}
    {found : Option Hit} (h : FirstOf kinds search place best)
    (hfound : Nearest (search kind) place found) (hrank : ∀ other ∈ kinds, rank other ≤ rank kind) :
    FirstOf (kind :: kinds) search place (earlier best kind found) := by
  cases found with
  | none =>
      rw [show Piece.earlier best kind none = best by cases best <;> rfl]
      cases best with
      | none => exact List.forall_mem_cons.mpr ⟨hfound, h⟩
      | some first =>
          obtain ⟨hmem, hreports, hleast⟩ := h
          exact ⟨List.mem_cons_of_mem _ hmem, hreports,
            List.forall_mem_cons.mpr ⟨fun other ho => absurd ho (hfound other), hleast⟩⟩
  | some hit =>
      obtain ⟨hreports, hnear⟩ := hfound
      cases best with
      | none =>
          refine ⟨List.mem_cons_self, hreports, List.forall_mem_cons.mpr
            ⟨fun other ho => ⟨hnear other ho, fun _ => Nat.le_refl _⟩, fun other hmem found hf => ?_⟩⟩
          exact absurd hf (h other hmem found)
      | some first =>
          obtain ⟨other, best⟩ := first
          obtain ⟨hmem, hbest, hleast⟩ := h
          -- only a nearer one replaces the best, for those before it have no greater rank
          rw [Piece.earlier]
          split
          · rename_i hlt
            refine ⟨List.mem_cons_self, hreports, List.forall_mem_cons.mpr
              ⟨fun other ho => ⟨hnear other ho, fun _ => Nat.le_refl _⟩, fun other hmem found hf => ?_⟩⟩
            have := (hleast other hmem found hf).1
            exact ⟨by omega, fun heq => by omega⟩
          · rename_i hle
            refine ⟨List.mem_cons_of_mem _ hmem, hbest, List.forall_mem_cons.mpr
              ⟨fun found hf => ⟨?_, fun _ => hrank other hmem⟩, hleast⟩⟩
            have := hnear found hf
            omega

/-- What `next?` says of a place. -/
def IsFirst (search : Directive → Search) (place : Place) : Option (Directive × Hit) → Prop
  | none => ∀ kind hit, ¬ Reports (search kind) place hit
  | some (kind, hit) => First search place kind hit

/-- **The directive that comes next is the first.** -/
theorem isFirst_next? (hs : ∀ kind, Leftmost (search kind)) (place : Place) :
    IsFirst search place (next? search place) := by
  have nearest := fun kind => nearest_firstNonEmpty (hs kind) place
  have none : FirstOf [] search place none := fun _ h => absurd h List.not_mem_nil
  have all := ((none.earlier (nearest .escape) (by decide)).earlier (nearest .interpolate)
    (by decide)).earlier (nearest .evaluate) (by decide)
  have every : ∀ kind : Directive, kind ∈ [Directive.evaluate, .interpolate, .escape] := by
    intro kind
    cases kind <;> decide
  rw [next?, Directive.all, List.foldl_cons, List.foldl_cons, List.foldl_cons, List.foldl_nil]
  revert all
  generalize earlier _ Directive.evaluate _ = best
  intro all
  match best with
  | .none => exact fun kind => all kind (every kind)
  | some (kind, hit) =>
      obtain ⟨-, hreports, hleast⟩ := all
      exact ⟨hreports, fun other found hf => (hleast other (every other) found hf).1,
        fun other found hf => (hleast other (every other) found hf).2⟩

/-- There is one first directive. -/
theorem First.unique {kind other : Directive} {hit found : Hit} (h : First search place kind hit)
    (h' : First search place other found) : kind = other ∧ hit = found := by
  have hskipped : hit.skipped = found.skipped :=
    Nat.le_antisymm (h.nearest _ _ h'.reports) (h'.nearest _ _ h.reports)
  obtain rfl : kind = other := rank_injective (Nat.le_antisymm
    (h.ties _ _ h'.reports hskipped.symm) (h'.ties _ _ h.reports hskipped))
  exact ⟨rfl, h.reports.eq_of_skipped h'.reports hskipped⟩

theorem next?_of_first (hs : ∀ kind, Leftmost (search kind)) {kind : Directive} {hit : Hit}
    (h : First search place kind hit) : next? search place = some (kind, hit) := by
  have hnext := isFirst_next? hs place
  match hbest : next? search place with
  | none =>
      rw [hbest] at hnext
      exact absurd h.reports (hnext kind hit)
  | some (other, found) =>
      rw [hbest] at hnext
      obtain ⟨rfl, rfl⟩ := h.unique hnext
      rfl

end

end Piece

end Stencil
