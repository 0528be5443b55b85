import Mathlib.Data.Finset.Prod
import ShiftReduce.FirstFollow
import ShiftReduce.Proofs.Grammar.Productions
import ShiftReduce.Proofs.Growth

/-!
# The limit of the FIRST and FOLLOW rounds

`Grammar.firstFollow` runs rounds until one adds nothing, with a bound on their number.
This file shows that the bound is never what ends them, and that the sets in the end are
`FirstFollow.Closed`: whatever a production lends to a set is in that set.

## Strategy

* A visit only adds terminals (`Below`), and it changes nothing unless it adds one.  So a
  round that changes the sets at all adds a terminal to one of them.
* All terminals come from bodies, so they are declared (`Declared`).  There are twice as
  many places for them as nonterminals times terminals, which is the bound.
* A visit reads sets that are no smaller than those before the round, so what a round
  without effect would have lent was there already.
-/

namespace ShiftReduce

/-! ## Families -/

namespace SetFamily

/-- Only the nonterminals of a family have terminals. -/
theorem lt_size_of_mem {f : SetFamily} {n : Nonterminal} {t : Terminal} (h : t ∈ f.get n) :
    n.index < f.sets.size := by
  by_contra hle
  have hempty : f.get n = ∅ := by
    simp [get, Array.getD, hle]
  rw [hempty] at h
  exact OrderedSet.not_mem_empty t h

theorem mem_get_add {f : SetFamily} {n m : Nonterminal} {added : OrderedSet Terminal}
    {t : Terminal} (h : t ∈ (f.add n added).get m) : t ∈ f.get m ∨ (m = n ∧ t ∈ added) := by
  by_cases hmn : m = n
  · subst hmn
    have hlt : m.index < f.sets.size := f.size_add m added ▸ lt_size_of_mem h
    rw [get_add_self hlt, OrderedSet.mem_union] at h
    exact h.imp_right fun ht => ⟨rfl, ht⟩
  · exact .inl (get_add_of_ne f hmn added ▸ h)

theorem mem_get_add_of_mem {f : SetFamily} {n m : Nonterminal} {added : OrderedSet Terminal}
    {t : Terminal} (h : t ∈ f.get m) : t ∈ (f.add n added).get m := by
  by_cases hmn : m = n
  · subst hmn
    rw [get_add_self (lt_size_of_mem h), OrderedSet.mem_union]
    exact .inl h
  · rwa [get_add_of_ne f hmn]

/-- Adding what is there already changes nothing. -/
theorem add_eq_self {f : SetFamily} {n : Nonterminal} {added : OrderedSet Terminal}
    (h : n.index < f.sets.size → added ⊆ f.get n) : f.add n added = f := by
  have hsets : f.sets.modify n.index (· ∪ added) = f.sets := by
    apply Array.ext (by simp)
    intro i hi hi'
    rw [Array.getElem_modify]
    by_cases hni : n.index = i
    · subst hni
      have hadded := h hi'
      simp only [get, Array.getD, hi', dif_pos] at hadded
      rw [if_pos rfl]
      exact OrderedSet.union_eq_self hadded
    · rw [if_neg hni]
  simp only [add, hsets]

end SetFamily

namespace FirstFollow

/-! ## What a body lends -/

/-- A body lends what is in FIRST of one of its symbols, with the blank in all of those before, and
what lies beyond if the blank is in all of them. -/
theorem mem_ofBody {s : FirstFollow} {blank t : Terminal}
    {beyond : OrderedSet Terminal} {body : List Symbol} :
    t ∈ s.ofBody blank beyond body ↔
      (∃ (i : Nat) (y : Symbol), body[i]? = some y ∧
        (∀ x ∈ body.take i, blank ∈ s.firstOf x) ∧ t ∈ s.firstOf y) ∨
      ((∀ x ∈ body, blank ∈ s.firstOf x) ∧ t ∈ beyond) := by
  induction body with
  | nil => simp [ofBody]
  | cons x rest ih =>
      unfold ofBody
      split
      · rename_i hx
        rw [OrderedSet.mem_union, ih, ← or_assoc]
        apply or_congr
        · constructor
          · rintro (ht | ⟨i, y, hy, hbefore, ht⟩)
            · exact ⟨0, x, rfl, by simp, ht⟩
            · exact ⟨i + 1, y, hy, by simpa [hx] using hbefore, ht⟩
          · rintro ⟨_ | i, y, hy, hbefore, ht⟩
            · obtain rfl : x = y := by simpa using hy
              exact .inl ht
            · exact .inr ⟨i, y, hy, by simpa [hx] using hbefore, ht⟩
        · simp [hx]
      · rename_i hx
        constructor
        · exact fun ht => .inl ⟨0, x, rfl, by simp, ht⟩
        · rintro (⟨_ | i, y, hy, hbefore, ht⟩ | ⟨hall, -⟩)
          · obtain rfl : x = y := by simpa using hy
            exact ht
          · exact absurd (hbefore x (by simp)) hx
          · exact absurd (hall x List.mem_cons_self) hx

/-- What the occurrence of a nonterminal in the body of a head takes in. -/
def after (s : FirstFollow) (head : Nonterminal) (next : Option Symbol) : OrderedSet Terminal :=
  match next with
  | some x => s.firstOf x
  | none => s.follow.get head

/-! ## Sets that grow -/

/-- One pair of families holds no more than another. -/
structure Below (s s' : FirstFollow) : Prop where
  first : ∀ n, ∀ t ∈ s.first.get n, t ∈ s'.first.get n
  follow : ∀ n, ∀ t ∈ s.follow.get n, t ∈ s'.follow.get n

theorem Below.refl (s : FirstFollow) : s.Below s := ⟨fun _ _ h => h, fun _ _ h => h⟩

theorem Below.of_eq {s s' : FirstFollow} (h : s = s') : s.Below s' := h ▸ Below.refl s

theorem Below.trans {s s' s'' : FirstFollow} (h : s.Below s') (h' : s'.Below s'') :
    s.Below s'' :=
  ⟨fun n t ht => h'.first n t (h.first n t ht), fun n t ht => h'.follow n t (h.follow n t ht)⟩

theorem Below.firstOf {s s' : FirstFollow} (h : s.Below s') {x : Symbol} {t : Terminal}
    (ht : t ∈ s.firstOf x) : t ∈ s'.firstOf x := by
  cases x with
  | terminal _ => exact ht
  | nonterminal n => exact h.first n t ht

theorem below_visitFirst (g : Grammar) (s : FirstFollow) (r : Rule) :
    s.Below (s.visitFirst g r) :=
  ⟨fun _ _ h => SetFamily.mem_get_add_of_mem h, fun _ _ h => h⟩

theorem below_visitOccurrence (head : Nonterminal) (s : FirstFollow)
    (o : Nonterminal × Option Symbol) : s.Below (s.visitOccurrence head o) :=
  ⟨fun _ _ h => h, fun _ _ h => SetFamily.mem_get_add_of_mem h⟩

theorem below_foldl {β : Type} {visit : FirstFollow → β → FirstFollow}
    (below : ∀ (s : FirstFollow) b, s.Below (visit s b)) (bs : List β) (s : FirstFollow) :
    s.Below (bs.foldl visit s) := by
  induction bs generalizing s with
  | nil => exact Below.refl s
  | cons b bs ih => exact (below s b).trans (ih _)

theorem below_visitFollow (s : FirstFollow) (r : Rule) : s.Below (s.visitFollow r) :=
  below_foldl (below_visitOccurrence r.head) _ s

theorem below_round (g : Grammar) (ordered : List Rule) (s : FirstFollow) :
    s.Below (round g ordered s) :=
  (below_foldl (below_visitFirst g) ordered s).trans (below_foldl below_visitFollow g.allRules _)

/-! ## A round without effect -/

/-- Visits that add nothing in the end change nothing on the way. -/
theorem visit_eq_self {β : Type} {visit : FirstFollow → β → FirstFollow}
    (below : ∀ (s : FirstFollow) b, s.Below (visit s b))
    (still : ∀ (s : FirstFollow) b, (visit s b).Below s → visit s b = s) {bs : List β}
    {s : FirstFollow} (h : (bs.foldl visit s).Below s) : ∀ b ∈ bs, visit s b = s := by
  induction bs with
  | nil => intro b hb; contradiction
  | cons c bs ih =>
      have hc : visit s c = s :=
        still s c ((below_foldl below bs (visit s c)).trans h)
      rw [List.foldl_cons, hc] at h
      exact List.forall_mem_cons.2 ⟨hc, ih h⟩

theorem visitFirst_eq_self {g : Grammar} {s : FirstFollow} {r : Rule}
    (h : (s.visitFirst g r).Below s) : s.visitFirst g r = s := by
  have hadd : s.first.add r.head (s.ofBody g.blank (s.follow.get r.head) r.body) = s.first :=
    SetFamily.add_eq_self fun hlt t ht => h.first r.head t (by
      simp only [visitFirst, SetFamily.get_add_self hlt, OrderedSet.mem_union]
      exact .inr ht)
  simp only [visitFirst, hadd]

theorem visitOccurrence_eq_self {head : Nonterminal} {s : FirstFollow}
    {o : Nonterminal × Option Symbol} (h : (s.visitOccurrence head o).Below s) :
    s.visitOccurrence head o = s := by
  have hadd : s.follow.add o.1 (s.after head o.2) = s.follow :=
    SetFamily.add_eq_self fun hlt t ht => h.follow o.1 t (by
      show t ∈ (s.follow.add o.1 (s.after head o.2)).get o.1
      rw [SetFamily.get_add_self hlt, OrderedSet.mem_union]
      exact .inr ht)
  show { s with follow := s.follow.add o.1 (s.after head o.2) } = s
  rw [hadd]

theorem visitFollow_eq_self {s : FirstFollow} {r : Rule} (h : (s.visitFollow r).Below s) :
    s.visitFollow r = s :=
  foldl_eq_self (visit_eq_self (below_visitOccurrence r.head)
    (fun _ _ => visitOccurrence_eq_self) h)

/-- No visit of a round without effect has an effect. -/
theorem visits_eq_self {g : Grammar} {ordered : List Rule} {s : FirstFollow}
    (h : (round g ordered s).Below s) :
    (∀ r ∈ ordered, s.visitFirst g r = s) ∧ ∀ r ∈ g.allRules, s.visitFollow r = s := by
  have hfirst : ∀ r ∈ ordered, s.visitFirst g r = s :=
    visit_eq_self (below_visitFirst g) (fun _ _ => visitFirst_eq_self)
      ((below_foldl below_visitFollow g.allRules _).trans h)
  simp only [round, foldl_eq_self hfirst] at h
  exact ⟨hfirst, visit_eq_self below_visitFollow (fun _ _ => visitFollow_eq_self) h⟩

theorem round_eq_self {g : Grammar} {ordered : List Rule} {s : FirstFollow}
    (h : (round g ordered s).Below s) : round g ordered s = s := by
  obtain ⟨hfirst, hfollow⟩ := visits_eq_self h
  rw [round, foldl_eq_self hfirst, foldl_eq_self hfollow]

/-! ## Declared terminals -/

/-- All terminals of the sets are declared, and there is a set for each nonterminal. -/
structure Declared (g : Grammar) (s : FirstFollow) : Prop where
  size_first : s.first.sets.size = g.vocabulary.nonterminals.length
  size_follow : s.follow.sets.size = g.vocabulary.nonterminals.length
  first : ∀ n, ∀ t ∈ s.first.get n, g.vocabulary.Declares (.terminal t)
  follow : ∀ n, ∀ t ∈ s.follow.get n, g.vocabulary.Declares (.terminal t)

theorem declared_initial (g : Grammar) : (initial g).Declared g where
  size_first := by simp [initial, SetFamily.empty]
  size_follow := by simp [initial, SetFamily.empty]
  first := by intro n t h; simp [initial] at h
  follow := by intro n t h; simp [initial] at h

theorem Declared.firstOf {g : Grammar} {s : FirstFollow} (hs : s.Declared g) {x : Symbol}
    (hx : g.vocabulary.Declares x) {t : Terminal} (ht : t ∈ s.firstOf x) :
    g.vocabulary.Declares (.terminal t) := by
  cases x with
  | terminal u =>
      obtain rfl := OrderedSet.mem_single.1 ht
      exact hx
  | nonterminal n => exact hs.first n t ht

theorem Declared.ofBody {g : Grammar} {s : FirstFollow} (hs : s.Declared g) {head : Nonterminal}
    {body : List Symbol} (hbody : ∀ x ∈ body, g.vocabulary.Declares x) :
    ∀ t ∈ s.ofBody g.blank (s.follow.get head) body, g.vocabulary.Declares (.terminal t) := by
  intro t ht
  rcases mem_ofBody.1 ht with ⟨i, y, hy, -, ht⟩ | ⟨-, ht⟩
  · exact hs.firstOf (hbody y (List.mem_of_getElem? hy)) ht
  · exact hs.follow head t ht

/-- The occurrences of nonterminals in a body are its nonterminals, each with what stands at
the next place. -/
theorem mem_occurrences {body : List Symbol} {n : Nonterminal} {next : Option Symbol} :
    (n, next) ∈ occurrences body ↔
      ∃ i : Nat, body[i]? = some (.nonterminal n) ∧ body[i + 1]? = next := by
  induction body with
  | nil => simp [occurrences]
  | cons x rest ih =>
      have hshift : (∃ i : Nat, (x :: rest)[i]? = some (.nonterminal n) ∧
          (x :: rest)[i + 1]? = next) ↔ (x = .nonterminal n ∧ rest.head? = next) ∨
          ∃ i : Nat, rest[i]? = some (.nonterminal n) ∧ rest[i + 1]? = next := by
        constructor
        · rintro ⟨_ | i, hi, hnext⟩
          · exact .inl ⟨by simpa using hi, by simpa [List.head?_eq_getElem?] using hnext⟩
          · exact .inr ⟨i, by simpa using hi, by simpa using hnext⟩
        · rintro (⟨rfl, hnext⟩ | ⟨i, hi, hnext⟩)
          · exact ⟨0, rfl, by simpa [List.head?_eq_getElem?] using hnext⟩
          · exact ⟨i + 1, by simpa using hi, by simpa using hnext⟩
      rw [hshift]
      cases x with
      | terminal t => simp [occurrences, ih]
      | nonterminal m =>
          simp only [occurrences, List.mem_cons, Prod.mk.injEq, ih, Symbol.nonterminal.injEq]
          exact or_congr (and_congr eq_comm eq_comm) Iff.rfl

theorem Declared.visitFirst {g : Grammar} (hg : g.WellFormed) {s : FirstFollow}
    (hs : s.Declared g) {r : Rule} (hr : r ∈ g.allRules) : (s.visitFirst g r).Declared g where
  size_first := by simp [FirstFollow.visitFirst, hs.size_first]
  size_follow := hs.size_follow
  first := by
    intro n t ht
    rcases SetFamily.mem_get_add ht with ht | ⟨-, ht⟩
    · exact hs.first n t ht
    · exact hs.ofBody (fun x hx => hg.declares_of_mem_body hr hx) t ht
  follow := hs.follow

theorem Declared.visitOccurrence {g : Grammar} {s : FirstFollow} (hs : s.Declared g)
    {head : Nonterminal} {o : Nonterminal × Option Symbol}
    (ho : ∀ x, o.2 = some x → g.vocabulary.Declares x) :
    (s.visitOccurrence head o).Declared g where
  size_first := hs.size_first
  size_follow := by simp [FirstFollow.visitOccurrence, hs.size_follow]
  first := hs.first
  follow := by
    intro n t ht
    rcases SetFamily.mem_get_add ht with ht | ⟨-, ht⟩
    · exact hs.follow n t ht
    · rcases hnext : o.2 with _ | x
      · rw [hnext] at ht
        exact hs.follow head t ht
      · rw [hnext] at ht
        exact hs.firstOf (ho x hnext) ht

theorem Declared.visitFollow {g : Grammar} (hg : g.WellFormed) {s : FirstFollow}
    (hs : s.Declared g) {r : Rule} (hr : r ∈ g.allRules) : (s.visitFollow r).Declared g := by
  apply List.foldlRecOn _ _ hs
  intro s hs o ho
  apply hs.visitOccurrence
  intro x hx
  obtain ⟨i, -, hi⟩ := mem_occurrences.1 (show (o.1, o.2) ∈ occurrences r.body from ho)
  exact hg.declares_of_mem_body hr (List.mem_of_getElem? (hi.trans hx))

theorem mem_byHead {g : Grammar} {r : Rule} :
    r ∈ byHead g ↔ r ∈ g.allRules ∧ r.head.index < g.vocabulary.nonterminals.length := by
  simp only [byHead, List.mem_flatMap, Vocabulary.mem_nonterminalList, Grammar.mem_productionsOf]
  constructor
  · rintro ⟨n, hn, hr, rfl⟩
    exact ⟨hr, hn⟩
  · rintro ⟨hr, hn⟩
    exact ⟨r.head, hn, hr, rfl⟩

theorem Declared.round {g : Grammar} (hg : g.WellFormed) {s : FirstFollow} (hs : s.Declared g) :
    (round g (byHead g) s).Declared g := by
  have hfirst : ((byHead g).foldl (FirstFollow.visitFirst g) s).Declared g :=
    List.foldlRecOn _ _ hs fun _ hs _ hr => hs.visitFirst hg (mem_byHead.1 hr).1
  exact List.foldlRecOn _ _ hfirst fun _ hs _ hr => hs.visitFollow hg hr

/-! ## The rounds end -/

/-- The places for a terminal: FIRST or FOLLOW of a nonterminal. -/
private def places (g : Grammar) : Finset (Bool × Nat × Nat) :=
  {true, false} ×ˢ Finset.range g.vocabulary.nonterminals.length ×ˢ
    Finset.range g.vocabulary.terminals.length

private theorem card_places (g : Grammar) :
    (places g).card = 2 * g.vocabulary.nonterminals.length * g.vocabulary.terminals.length := by
  simp [places, Nat.mul_assoc]

/-- Whether a terminal is in its place. -/
private def Holds (s : FirstFollow) (p : Bool × Nat × Nat) : Prop :=
  (⟨p.2.2⟩ : Terminal) ∈ (if p.1 then s.first else s.follow).get ⟨p.2.1⟩

private theorem Below.holds {s s' : FirstFollow} (h : s.Below s') (p : Bool × Nat × Nat)
    (hp : Holds s p) : Holds s' p := by
  obtain ⟨b, n, t⟩ := p
  cases b with
  | true => exact h.first _ _ hp
  | false => exact h.follow _ _ hp

private theorem below_of_holds {g : Grammar} {s s' : FirstFollow} (hs : s.Declared g)
    (h : ∀ p ∈ places g, Holds s p → Holds s' p) : s.Below s' := by
  constructor
  · intro n t ht
    have hn := hs.size_first ▸ SetFamily.lt_size_of_mem ht
    have ht' : t.index < g.vocabulary.terminals.length := hs.first n t ht
    exact h (true, n.index, t.index) (by simp [places, hn, ht']) ht
  · intro n t ht
    have hn := hs.size_follow ▸ SetFamily.lt_size_of_mem ht
    have ht' : t.index < g.vocabulary.terminals.length := hs.follow n t ht
    exact h (false, n.index, t.index) (by simp [places, hn, ht']) ht

/-- A round that changes the sets adds a terminal. -/
private theorem missing_round_lt {g : Grammar} (hg : g.WellFormed) {s : FirstFollow}
    (hs : s.Declared g) (hne : round g (byHead g) s ≠ s) :
    missing (places g) (Holds (round g (byHead g) s)) < missing (places g) (Holds s) := by
  have hnew : ∃ p ∈ places g, Holds (round g (byHead g) s) p ∧ ¬ Holds s p := by
    by_contra hall
    apply hne
    apply round_eq_self
    apply below_of_holds (hs.round hg)
    intro p hp hround
    by_contra hold
    exact hall ⟨p, hp, hround, hold⟩
  obtain ⟨p, hp, hround, hold⟩ := hnew
  exact missing_lt (fun p _ => (below_round g (byHead g) s).holds p) hp hround hold

/-- What every round keeps: the terminals are declared, and sets that are called stable do
not change any more. -/
private structure Sound (g : Grammar) (r : Rounds) : Prop where
  declared : r.sets.Declared g
  stable : r.stable = true → round g (byHead g) r.sets = r.sets

private theorem sound_start (g : Grammar) : Sound g ⟨initial g, false⟩ :=
  ⟨declared_initial g, fun h => absurd h Bool.false_ne_true⟩

private theorem Sound.next {g : Grammar} (hg : g.WellFormed) {r : Rounds} (hr : Sound g r) :
    Sound g (r.next g (byHead g)) := by
  refine ⟨hr.declared.round hg, ?_⟩
  intro hstable
  have he : round g (byHead g) r.sets = r.sets := by simpa [Rounds.next] using hstable
  simp only [Rounds.next, he]

/-- A bound on the rounds that are left.  The last of them is the one without effect. -/
private noncomputable def roundsLeft (g : Grammar) (r : Rounds) : Nat :=
  if r.stable then 0 else missing (places g) (Holds r.sets) + 1

private theorem roundsLeft_start_le (g : Grammar) :
    roundsLeft g ⟨initial g, false⟩ ≤ bound g := by
  have hcard := missing_le_card (places g) (Holds (initial g))
  rw [card_places] at hcard
  simpa [roundsLeft, bound] using hcard

private theorem roundsLeft_next_lt {g : Grammar} (hg : g.WellFormed) {r : Rounds}
    (hr : Sound g r) (hstable : r.stable = false) :
    roundsLeft g (r.next g (byHead g)) < roundsLeft g r := by
  by_cases he : round g (byHead g) r.sets = r.sets
  · simp [roundsLeft, Rounds.next, hstable, he]
  · have hlt := missing_round_lt hg hr.declared he
    simp only [roundsLeft, Rounds.next, hstable, he, decide_false, Bool.false_eq_true, if_false]
    omega

/-- The rounds end with one that adds nothing. -/
private theorem sound_rounds {g : Grammar} (hg : g.WellFormed) :
    Sound g (runUntil (·.stable) (Rounds.next g (byHead g)) (bound g) ⟨initial g, false⟩) ∧
    (runUntil (·.stable) (Rounds.next g (byHead g)) (bound g) ⟨initial g, false⟩).stable =
      true := by
  have keep : ∀ r : Rounds, Sound g r → r.stable = false → Sound g (r.next g (byHead g)) :=
    fun _ hr _ => hr.next hg
  have lower : ∀ r : Rounds, Sound g r → r.stable = false →
      roundsLeft g (r.next g (byHead g)) < roundsLeft g r :=
    fun _ hr hstable => roundsLeft_next_lt hg hr hstable
  exact ⟨runUntil_invariant keep (bound g) (sound_start g),
    done_runUntil (roundsLeft g) keep lower (sound_start g) (roundsLeft_start_le g)⟩

theorem stable_rounds {g : Grammar} (hg : g.WellFormed) :
    (runUntil (·.stable) (Rounds.next g (byHead g)) (bound g) ⟨initial g, false⟩).stable = true :=
  (sound_rounds hg).2

private theorem limit {g : Grammar} (hg : g.WellFormed) :
    g.firstFollow.Declared g ∧ round g (byHead g) g.firstFollow = g.firstFollow := by
  obtain ⟨hsound, hdone⟩ := sound_rounds hg
  exact ⟨hsound.declared, hsound.stable hdone⟩

/-- What holds before the first round and is kept by every round holds of the sets. -/
theorem firstFollow_invariant {g : Grammar} {P : FirstFollow → Prop} (start : P (initial g))
    (keep : ∀ s, P s → P (round g (byHead g) s)) : P g.firstFollow := by
  have hkeep : ∀ r : Rounds, P r.sets → r.stable = false → P (r.next g (byHead g)).sets :=
    fun r hr _ => keep r.sets hr
  exact runUntil_invariant (P := fun r : Rounds => P r.sets) hkeep (bound g) start

/-! ## The limit is closed -/

/-- Whatever a production lends to a set is in that set. -/
structure Closed (g : Grammar) (s : FirstFollow) : Prop where
  first : ∀ r ∈ g.allRules, ∀ t ∈ s.ofBody g.blank (s.follow.get r.head) r.body,
    t ∈ s.first.get r.head
  follow : ∀ r ∈ g.allRules, ∀ (i : Nat) (n : Nonterminal), r.body[i]? = some (.nonterminal n) →
    ∀ t ∈ s.after r.head r.body[i + 1]?, t ∈ s.follow.get n

/-! ### Visits without effect -/

theorem first_of_visit {g : Grammar} {s : FirstFollow} (hs : s.Declared g) {r : Rule}
    (hr : r.head.index < g.vocabulary.nonterminals.length) (h : s.visitFirst g r = s) :
    ∀ t ∈ s.ofBody g.blank (s.follow.get r.head) r.body, t ∈ s.first.get r.head := by
  intro t ht
  rw [← h]
  simp only [visitFirst, SetFamily.get_add_self (hs.size_first ▸ hr), OrderedSet.mem_union]
  exact .inr ht

theorem follow_of_visit {g : Grammar} {s : FirstFollow} (hs : s.Declared g) {r : Rule}
    (h : s.visitFollow r = s) {i : Nat} {n : Nonterminal}
    (hn : n.index < g.vocabulary.nonterminals.length)
    (hi : r.body[i]? = some (.nonterminal n)) :
    ∀ t ∈ s.after r.head r.body[i + 1]?, t ∈ s.follow.get n := by
  intro t ht
  have hvisit : s.visitOccurrence r.head (n, r.body[i + 1]?) = s :=
    visit_eq_self (below_visitOccurrence r.head) (fun _ _ => visitOccurrence_eq_self)
      (Below.of_eq h) _ (mem_occurrences.2 ⟨i, hi, rfl⟩)
  rw [← hvisit]
  show t ∈ (s.follow.add n (s.after r.head r.body[i + 1]?)).get n
  rw [SetFamily.get_add_self (hs.size_follow ▸ hn), OrderedSet.mem_union]
  exact .inr ht

end FirstFollow

namespace Grammar.WellFormed

open FirstFollow

variable {g : Grammar} (hg : g.WellFormed)

include hg

/-- The sets of a grammar hold declared terminals only. -/
theorem declared_firstFollow : g.firstFollow.Declared g := (limit hg).1

/-- The sets of a grammar take in all that its productions lend to them. -/
theorem closed_firstFollow : g.firstFollow.Closed g := by
  obtain ⟨hdeclared, hround⟩ := limit hg
  obtain ⟨hfirst, hfollow⟩ := visits_eq_self (Below.of_eq hround)
  constructor
  · intro r hr
    have hlt := hg.head_lt_of_mem hr
    exact first_of_visit hdeclared hlt (hfirst r (mem_byHead.2 ⟨hr, hlt⟩))
  · intro r hr i n hi
    have hn : g.vocabulary.Declares (.nonterminal n) :=
      hg.declares_of_mem_body hr (List.mem_of_getElem? hi)
    exact follow_of_visit hdeclared (hfollow r hr) hn.2 hi

end Grammar.WellFormed

end ShiftReduce
