import Mathlib.Data.List.Induction
import ShiftReduce.Proofs.Queue

/-!
# Histories of queues

A queue answers like the plain list of its waiting values, whatever it is asked one after another
(`servesInLine_ofList`).  What the list does is the standard for a queue (`Request.inLine`): a value
that waits already is refused, another one comes last, and the first one leaves.

* `inLine_toList`, `allInLine_toList`: one request, and all requests, to the list and to the queue.
* `Request.allInLine_conserves`: nothing is lost, made up or brought out of order.  What waits at
  the start and what comes in later is what leaves and then what waits in the end.
* `Request.departed_of_enough_pops`: the values that wait leave, each once, when there are as many
  pops as values, whatever is asked in between.

The last two are about the list, where a request is a matter of a few cases.  They go over to the
queue by the first two, so that the containers of the queue come in with single requests only.
-/

namespace ShiftReduce.Queue

open Std (TransCmp LawfulEqCmp)

universe u

variable {α : Type u}

/-! ## What comes in and what leaves -/

/-- The value that comes in with a request that is answered so, if there is one. -/
def Request.admitted : Request α → Answer α → List α
  | .push a, .accepted true => [a]
  | _, _ => []

/-- The value that leaves with an answer, if there is one. -/
def Answer.departed : Answer α → List α
  | .popped value => value.toList
  | _ => []

/-- The values that come in with requests that are answered so, in order. -/
def admitted (requests : List (Request α)) (answers : List (Answer α)) : List α :=
  (List.zipWith Request.admitted requests answers).flatten

/-- The values that leave with answers, in order. -/
def departed (answers : List (Answer α)) : List α := answers.flatMap Answer.departed

/-- Whether a value is asked for. -/
def Request.isPop : Request α → Bool
  | .pop => true
  | _ => false

theorem Request.isPop_iff {r : Request α} : r.isPop = true ↔ r = .pop := by
  cases r <;> simp [isPop]

@[simp] theorem admitted_cons (r : Request α) (requests : List (Request α)) (answer : Answer α)
    (answers : List (Answer α)) : admitted (r :: requests) (answer :: answers) =
      r.admitted answer ++ admitted requests answers := by
  simp [admitted]

@[simp] theorem departed_cons (answer : Answer α) (answers : List (Answer α)) :
    departed (answer :: answers) = answer.departed ++ departed answers :=
  List.flatMap_cons

@[simp] theorem departed_append (answers answers' : List (Answer α)) :
    departed (answers ++ answers') = departed answers ++ departed answers' :=
  List.flatMap_append

/-! ## Lines -/

namespace Request

variable [DecidableEq α]

/-- What a plain list of waiting values does with a request: a value that does not wait yet comes
last, and the first one leaves. -/
def inLine : Request α → List α → Answer α × List α
  | .push a, line => if a ∈ line then (.accepted false, line) else (.accepted true, line ++ [a])
  | .pop, line => (.popped line.head?, line.tail)
  | .isEmpty, line => (.empty line.isEmpty, line)

/-- The answers of a list to requests made one after another, and what it is in the end. -/
def allInLine : List (Request α) → List α → List (Answer α) × List α
  | [], line => ([], line)
  | r :: rest, line =>
    let served := r.inLine line
    let later := allInLine rest served.2
    (served.1 :: later.1, later.2)

/-- What comes in with one request goes to the end of the line, and what leaves was at its front. -/
theorem inLine_conserves (r : Request α) (line : List α) :
    line ++ r.admitted (r.inLine line).1 = (r.inLine line).1.departed ++ (r.inLine line).2 := by
  cases r with
  | push a =>
      by_cases h : a ∈ line
      · simp [inLine, h, admitted, Answer.departed]
      · simp [inLine, h, admitted, Answer.departed]
  | pop => cases line <;> simp [inLine, admitted, Answer.departed]
  | isEmpty => simp [inLine, admitted, Answer.departed]

/-- What waits at the start and what comes in later is what leaves and what waits in the end. -/
theorem allInLine_conserves (requests : List (Request α)) (line : List α) :
    line ++ Queue.admitted requests (allInLine requests line).1 =
      departed (allInLine requests line).1 ++ (allInLine requests line).2 := by
  induction requests generalizing line with
  | nil => simp [allInLine, Queue.admitted, departed]
  | cons r rest ih =>
      have hstep := inLine_conserves r line
      have hlater := ih (r.inLine line).2
      simp only [allInLine, admitted_cons, departed_cons]
      rw [← List.append_assoc, hstep, List.append_assoc, hlater, List.append_assoc]

/-- A pop takes a value out as long as one waits. -/
theorem min_le_length_departed (requests : List (Request α)) (line : List α) :
    min line.length (requests.countP isPop) ≤ (departed (allInLine requests line).1).length := by
  induction requests generalizing line with
  | nil => simp
  | cons r rest ih =>
      have hlater := ih (r.inLine line).2
      have hlength := congrArg List.length (inLine_conserves r line)
      simp only [allInLine, departed_cons, List.length_append] at hlength ⊢
      cases hpop : r.isPop with
      | false =>
          -- Whatever waited still waits, if it has not left.
          rw [List.countP_cons_of_neg (by simp [hpop])]
          omega
      | true =>
          obtain rfl := isPop_iff.1 hpop
          rw [List.countP_cons_of_pos rfl]
          cases line with
          | nil => simp
          | cons a line =>
              have hout : (inLine .pop (a :: line)).1.departed = [a] := rfl
              have hline : (inLine .pop (a :: line)).2 = line := rfl
              rw [hline] at hlater
              rw [hout, hline, List.length_singleton, List.length_cons]
              omega

/-- With enough pops the values that wait leave first, each once and in order.  What leaves after
them has come in after them. -/
theorem departed_of_enough_pops {later : List (Request α)} {line : List α}
    (h : line.length ≤ later.countP isPop) :
    ∃ rest, departed (allInLine later line).1 = line ++ rest ∧
      rest <+: Queue.admitted later (allInLine later line).1 := by
  have hlength : line.length ≤ (departed (allInLine later line).1).length := by
    have hmin := min_le_length_departed later line
    rwa [Nat.min_eq_left h] at hmin
  have hconserves := allInLine_conserves later line
  have hfront : line <+: departed (allInLine later line).1 ++ (allInLine later line).2 :=
    hconserves ▸ List.prefix_append line _
  obtain ⟨rest, hrest⟩ :=
    List.prefix_of_prefix_length_le hfront (List.prefix_append _ _) hlength
  refine ⟨rest, hrest.symm, (allInLine later line).2, ?_⟩
  rw [← hrest, List.append_assoc] at hconserves
  exact (List.append_cancel_left hconserves).symm

end Request

/-! ## Queues as lines -/

variable {order : α → α → Ordering} [TransCmp order] [LawfulEqCmp order] {q : Queue α order}

/-- The queue after requests made one after another. -/
def afterAll (q : Queue α order) (requests : List (Request α)) : Queue α order :=
  requests.foldl (fun q r => (q.serve r).2) q

theorem serveAll_append (q : Queue α order) (requests later : List (Request α)) :
    q.serveAll (requests ++ later) =
      q.serveAll requests ++ (q.afterAll requests).serveAll later := by
  induction requests generalizing q with
  | nil => rfl
  | cons r rest ih => exact congrArg ((q.serve r).1 :: ·) (ih (q.serve r).2)

/-- A queue stands for a list of distinct values: its set has the same values, and the operations do
with them what is done in a line. -/
structure Represents (q : Queue α order) (line : List α) : Prop where
  toList_eq : q.toList = line
  nodup : line.Nodup
  mem_waiting : ∀ a, a ∈ q.waiting ↔ a ∈ line
  push_of_not_mem : ∀ a, a ∉ line → (q.push a).1 = true ∧ (q.push a).2.toList = line ++ [a]
  push_of_mem : ∀ a, a ∈ line → q.push a = (false, q)
  pop_nil : line = [] → q.pop = none
  /-- The first value leaves, and may come in again. -/
  pop_cons : ∀ a rest, line = a :: rest →
    ∃ q', q.pop = some (a, q') ∧ q'.toList = rest ∧ (q'.push a).1 = true
  isEmpty_iff : q.isEmpty = true ↔ line = []

/-- Every queue stands for the list of its values. -/
theorem represents_toList (q : Queue α order) : q.Represents q.toList where
  toList_eq := rfl
  nodup := q.nodup_toList
  mem_waiting := q.mem_waiting
  push_of_not_mem _ h := Queue.push_of_not_mem h
  push_of_mem _ h := Queue.push_of_mem h
  pop_nil := pop_of_toList_eq_nil
  pop_cons a rest h := by
    obtain ⟨q', hpop, hrest⟩ := exists_pop_of_toList_eq_cons h
    exact ⟨q', hpop, hrest, (Queue.push_of_not_mem (not_mem_of_pop hpop)).1⟩
  isEmpty_iff := Queue.isEmpty_iff

variable [DecidableEq α]

/-- The list of the values of a queue does with a request what the queue does. -/
theorem inLine_toList (q : Queue α order) (r : Request α) :
    r.inLine q.toList = ((q.serve r).1, (q.serve r).2.toList) := by
  cases r with
  | push a =>
      by_cases h : a ∈ q.toList
      · simp [serve, Request.inLine, h, Queue.push_of_mem h]
      · simp [serve, Request.inLine, h, Queue.push_of_not_mem h]
  | pop =>
      cases h : q.toList with
      | nil => simp [serve, Request.inLine, h, pop_of_toList_eq_nil h]
      | cons a rest =>
          obtain ⟨q', hpop, hrest⟩ := exists_pop_of_toList_eq_cons h
          simp [serve, Request.inLine, hpop, hrest]
  | isEmpty =>
      have hempty : q.toList.isEmpty = q.isEmpty := by
        rw [Bool.eq_iff_iff, Queue.isEmpty_iff, List.isEmpty_iff]
      simp [serve, Request.inLine, hempty]

/-- It does with requests made one after another what the queue does. -/
theorem allInLine_toList (q : Queue α order) (requests : List (Request α)) :
    Request.allInLine requests q.toList =
      (q.serveAll requests, (q.afterAll requests).toList) := by
  induction requests generalizing q with
  | nil => rfl
  | cons r rest ih =>
      rw [Request.allInLine, inLine_toList, ih]
      rfl

/-- The queue of a list has the values of the list at their first occurrences. -/
theorem toList_ofList (as : List α) : (ofList as : Queue α order).toList = as.eraseDups := by
  induction as using List.reverseRecOn with
  | nil => rfl
  | append_singleton as a ih =>
      have hlast : (ofList (as ++ [a]) : Queue α order) = (ofList as).enqueue a := by
        simp [ofList]
      rw [hlast, List.eraseDups_append]
      by_cases h : a ∈ as
      · rw [enqueue_of_mem (ih ▸ List.mem_eraseDups.2 h), ih]
        simp [List.removeAll, h]
      · have hnot : a ∉ (ofList as : Queue α order).toList := ih ▸ mt List.mem_eraseDups.1 h
        rw [enqueue, (Queue.push_of_not_mem hnot).2, ih]
        simp [List.removeAll, List.eraseDups_cons, h]

/-- Requests made to a queue one after another go as they go in a line. -/
structure ServesInLine (q : Queue α order) (line : List α) (requests : List (Request α)) : Prop where
  answers : q.serveAll requests = (Request.allInLine requests line).1
  represents : (q.afterAll requests).Represents (Request.allInLine requests line).2
  /-- What was there or has come in since has left or waits, and all of it in order. -/
  conserves : line ++ admitted requests (q.serveAll requests) =
    departed (q.serveAll requests) ++ (q.afterAll requests).toList
  /-- When as many pops follow as values wait, whatever else does, all that has come in before
  leaves, each value once and in order, and then only what has come in since. -/
  leaves : ∀ later : List (Request α),
    (q.afterAll requests).toList.length ≤ later.countP Request.isPop →
    ∃ rest, departed (q.serveAll (requests ++ later)) =
        line ++ admitted requests (q.serveAll requests) ++ rest ∧
      rest <+: admitted later ((q.afterAll requests).serveAll later)

theorem servesInLine_toList (q : Queue α order) (requests : List (Request α)) :
    ServesInLine q q.toList requests := by
  have hconserves := Request.allInLine_conserves requests q.toList
  rw [allInLine_toList] at hconserves
  constructor
  case answers => rw [allInLine_toList]
  case represents =>
    rw [allInLine_toList]
    exact represents_toList _
  case conserves => exact hconserves
  case leaves =>
    intro later hpops
    obtain ⟨rest, hdeparted, hrest⟩ := Request.departed_of_enough_pops hpops
    rw [allInLine_toList] at hdeparted hrest
    refine ⟨rest, ?_, hrest⟩
    rw [serveAll_append, departed_append, hdeparted, hconserves, List.append_assoc]

/-- A queue made of any values serves any requests as a line of these values does, in which each of
them stands where it occurs first. -/
theorem servesInLine_ofList (initial : List α) (requests : List (Request α)) :
    ServesInLine (ofList initial : Queue α order) initial.eraseDups requests := by
  have hline : (ofList initial : Queue α order).toList = initial.eraseDups := toList_ofList initial
  rw [← hline]
  exact servesInLine_toList _ requests

/-- One leaves, comes in again, and two is refused as long as it waits. -/
def returning : List (Request Nat) := [.pop, .push 1, .push 2, .pop]

/-- Three, one and another value leave. -/
def emptying : List (Request Nat) := [.push 5, .pop, .isEmpty, .pop, .pop, .isEmpty]

/-- The value one, which comes in twice, leaves twice. -/
theorem servesInLine_ofList_returning :
    ServesInLine (ofList [1, 2, 1, 3] : Queue Nat compare) [1, 2, 3] returning ∧
    (ofList [1, 2, 1, 3] : Queue Nat compare).serveAll returning =
      [.popped (some 1), .accepted true, .accepted false, .popped (some 2)] ∧
    ((ofList [1, 2, 1, 3] : Queue Nat compare).afterAll returning).toList.length ≤
      emptying.countP Request.isPop ∧
    ∃ rest, departed ((ofList [1, 2, 1, 3] : Queue Nat compare).serveAll (returning ++ emptying)) =
      [1, 2, 3] ++ [1] ++ rest ∧ rest <+: [5] := by
  have hserves : ServesInLine (ofList [1, 2, 1, 3] : Queue Nat compare) [1, 2, 3] returning :=
    servesInLine_ofList [1, 2, 1, 3] returning
  have hpops : ((ofList [1, 2, 1, 3] : Queue Nat compare).afterAll returning).toList.length ≤
      emptying.countP Request.isPop := by decide
  exact ⟨hserves, hserves.answers, hpops, hserves.leaves emptying hpops⟩

end ShiftReduce.Queue
