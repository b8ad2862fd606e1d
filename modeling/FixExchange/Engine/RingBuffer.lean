/-
# The ring buffer of the engine

A model of `src/engine/RingBuffer.h`: the buffer with its two indices, the three operations as
the source writes them, and the same operations taken apart into the single accesses to the
shared memory that a producer and a consumer make while they run side by side.  A read of the
other side's index may be out of date by the time it is compared.
-/
import Mathlib.Logic.Function.Basic
import Mathlib.Tactic
import FixExchange.Lib.Transition

namespace FixExchange

/-- `RingBuffer<T, N>`.  The next free slot is `head`, written by the producer only; the next
slot to read is `tail`, written by the consumer only. -/
structure RingBuffer (T : Type*) (N : ℕ) where
  /-- The `static_assert`. -/
  two_pow : N &&& (N - 1) = 0
  buf : Fin N → T
  head : Fin N
  tail : Fin N

namespace RingBuffer

variable {T : Type*} {N k : ℕ}

/-- The buffer as it is constructed: its slots hold whatever `T` is constructed with. -/
def init (slots : Fin (2 ^ k) → T) : RingBuffer T (2 ^ k) where
  two_pow := by rw [Nat.and_two_pow_sub_one_eq_mod, Nat.mod_self]
  buf := slots
  head := 0
  tail := 0

/-- `(i + 1) & (N - 1)`; as `i < N`, the sum does not leave `size_t`. -/
def next (i : Fin N) : Fin N :=
  ⟨(i.val + 1) &&& (N - 1), by
    have h : (i.val + 1) &&& (N - 1) ≤ N - 1 := Nat.and_le_right
    have := i.pos
    omega⟩

/-- `push`; there is no result when it returns `false`. -/
def push (q : RingBuffer T N) (item : T) : Option (RingBuffer T N) :=
  if next q.head = q.tail then none
  else some { q with buf := Function.update q.buf q.head item, head := next q.head }

/-- `pop`.  The item is moved out of its slot; `moved` is what a move leaves behind. -/
def pop (moved : T → T) (q : RingBuffer T N) : Option (T × RingBuffer T N) :=
  if q.tail = q.head then none
  else
    some (q.buf q.tail,
      { q with
        buf := Function.update q.buf q.tail (moved (q.buf q.tail))
        tail := next q.tail })

/-- `empty`. -/
def empty (q : RingBuffer T N) : Bool := q.tail = q.head

/-! ## The two threads -/

/-- Where the producer is in a call of `push`. -/
inductive Producer (T : Type*) (N : ℕ)
  | idle
  /-- `head_` has been read as `h`. -/
  | readTail (item : T) (h : Fin N)
  /-- `tail_` has been read as `t`. -/
  | compare (item : T) (h t : Fin N)
  /-- The two differ. -/
  | write (item : T) (h : Fin N)
  /-- The slot has been written; the item is kept for the record only. -/
  | publish (item : T) (h : Fin N)

/-- Where the consumer is in a call of `pop` or `empty`. -/
inductive Consumer (T : Type*) (N : ℕ)
  | idle
  /-- `tail_` has been read as `t`. -/
  | readHead (t : Fin N)
  /-- `head_` has been read as `h`. -/
  | compare (t h : Fin N)
  /-- The two differ. -/
  | read (t : Fin N)
  /-- The item has been moved out of its slot. -/
  | publish (item : T) (t : Fin N)
  /-- `empty` has read `tail_` as `t`. -/
  | emptyReadHead (t : Fin N)
  /-- `empty` has read `head_` as `h`. -/
  | emptyCompare (t h : Fin N)

/-- The buffer, and where its two threads are. -/
structure Shared (T : Type*) (N : ℕ) where
  queue : RingBuffer T N
  producer : Producer T N
  consumer : Consumer T N

/-- A step of one of the threads. -/
inductive Access (T : Type*)
  /-- The producer calls `push` and reads `head_`. -/
  | push (item : T)
  /-- The producer goes on. -/
  | producer
  /-- The consumer calls `pop` and reads `tail_`. -/
  | pop
  /-- The consumer calls `empty` and reads `tail_`. -/
  | empty
  /-- The consumer goes on. -/
  | consumer

/-- What a call returns. -/
inductive Return (T : Type*)
  | pushed (item : T)
  | notPushed
  | popped (item : T)
  | notPopped
  | wasEmpty (answer : Bool)

namespace Shared

/-- No call is under way. -/
def start (slots : Fin (2 ^ k) → T) : Shared T (2 ^ k) := ⟨init slots, .idle, .idle⟩

/-- The producer takes its next step. -/
def producerStep (s : Shared T N) : Option (Shared T N) :=
  match s.producer with
  | .idle => none
  | .readTail item h => some { s with producer := .compare item h s.queue.tail }
  | .compare item h t =>
    some { s with producer := if next h = t then .idle else .write item h }
  | .write item h =>
    some { s with
      queue := { s.queue with buf := Function.update s.queue.buf h item }
      producer := .publish item h }
  | .publish _ h => some { s with queue := { s.queue with head := next h }, producer := .idle }

/-- The consumer takes its next step. -/
def consumerStep (moved : T → T) (s : Shared T N) : Option (Shared T N) :=
  match s.consumer with
  | .idle => none
  | .readHead t => some { s with consumer := .compare t s.queue.head }
  | .compare t h => some { s with consumer := if t = h then .idle else .read t }
  | .read t =>
    some { s with
      queue := { s.queue with buf := Function.update s.queue.buf t (moved (s.queue.buf t)) }
      consumer := .publish (s.queue.buf t) t }
  | .publish _ t => some { s with queue := { s.queue with tail := next t }, consumer := .idle }
  | .emptyReadHead t => some { s with consumer := .emptyCompare t s.queue.head }
  | .emptyCompare _ _ => some { s with consumer := .idle }

/-- One access to the shared memory. -/
def step (moved : T → T) (s : Shared T N) : Access T → Option (Shared T N)
  | .push item =>
    match s.producer with
    | .idle => some { s with producer := .readTail item s.queue.head }
    | _ => none
  | .producer => s.producerStep
  | .pop =>
    match s.consumer with
    | .idle => some { s with consumer := .readHead s.queue.tail }
    | _ => none
  | .empty =>
    match s.consumer with
    | .idle => some { s with consumer := .emptyReadHead s.queue.tail }
    | _ => none
  | .consumer => s.consumerStep moved

/-- What the call that a step ends returns. -/
def returned (s : Shared T N) : Access T → List (Return T)
  | .producer =>
    match s.producer with
    | .compare _ h t => if next h = t then [.notPushed] else []
    | .publish item _ => [.pushed item]
    | _ => []
  | .consumer =>
    match s.consumer with
    | .compare t h => if t = h then [.notPopped] else []
    | .publish item _ => [.popped item]
    | .emptyCompare t h => [.wasEmpty (t = h)]
    | _ => []
  | _ => []

end Shared

/-! ## Slots

The `i`-th item ever pushed goes to slot `i % N`.  Slots of less than `N` items in a row are
different. -/

section Slots

variable [NeZero N]

/-- The slot of the `i`-th item. -/
def slot (N : ℕ) [NeZero N] (i : ℕ) : Fin N := Fin.ofNat N i

lemma next_slot (hN : N &&& (N - 1) = 0) (i : ℕ) : next (slot N i) = slot N (i + 1) := by
  obtain ⟨k, rfl⟩ := (Nat.and_sub_one_eq_zero_iff_isPowerOfTwo (NeZero.ne N)).mp hN
  ext
  show (i % 2 ^ k + 1) &&& (2 ^ k - 1) = (i + 1) % 2 ^ k
  rw [Nat.and_two_pow_sub_one_eq_mod, Nat.mod_add_mod]

lemma slot_inj {i j : ℕ} (hle : i ≤ j) (hlt : j < i + N) : slot N i = slot N j ↔ i = j := by
  constructor
  · intro h
    have hmod : i % N = j % N := congrArg Fin.val h
    have hdvd : N ∣ j - i := (Nat.modEq_iff_dvd' hle).mp hmod
    have hzero : j - i = 0 := Nat.eq_zero_of_dvd_of_lt hdvd (by omega)
    omega
  · rintro rfl
    rfl

/-- `push` finds the buffer full exactly when `N - 1` items are in it. -/
lemma push_eq_none {q : RingBuffer T N} {p c : ℕ} (hhead : q.head = slot N p)
    (htail : q.tail = slot N c) (hle : c ≤ p) (hroom : p < c + N) (item : T) :
    q.push item = none ↔ p - c = N - 1 := by
  have hnext : next q.head = q.tail ↔ c + N = p + 1 := by
    rw [hhead, htail, next_slot q.two_pow]
    constructor
    · intro h
      by_contra hne
      have := (slot_inj (by omega) (by omega)).mp h.symm
      omega
    · intro h
      ext
      show (p + 1) % N = c % N
      rw [← h, Nat.add_mod_right]
  have hpos : 0 < N := NeZero.pos N
  rw [push, ite_eq_left_iff]
  simp only [reduceCtorEq, imp_false, not_not, hnext]
  omega

/-- `pop` finds the buffer empty exactly when no item is in it. -/
lemma pop_eq_none {q : RingBuffer T N} {p c : ℕ} (moved : T → T) (hhead : q.head = slot N p)
    (htail : q.tail = slot N c) (hle : c ≤ p) (hroom : p < c + N) :
    q.pop moved = none ↔ p - c = 0 := by
  rw [pop, ite_eq_left_iff]
  simp only [reduceCtorEq, imp_false, not_not, hhead, htail, slot_inj hle hroom]
  omega

end Slots

/-! ## What the threads know

Each thread works with a copy of the other side's index.  The copy is an index that the other
side had at some time, and the counts only grow: the producer sees at most the room there is,
the consumer at most the items there are. -/

/-- The items whose `push` has returned `true`. -/
def pushed (rs : List (Return T)) : List T :=
  rs.filterMap fun
    | .pushed item => some item
    | _ => none

/-- The items that `pop` has returned. -/
def popped (rs : List (Return T)) : List T :=
  rs.filterMap fun
    | .popped item => some item
    | _ => none

@[simp] lemma pushed_append (rs rs' : List (Return T)) :
    pushed (rs ++ rs') = pushed rs ++ pushed rs' := List.filterMap_append

@[simp] lemma popped_append (rs rs' : List (Return T)) :
    popped (rs ++ rs') = popped rs ++ popped rs' := List.filterMap_append

/-- The item that is in its slot but not yet published. -/
def Producer.written : Producer T N → List T
  | .publish item _ => [item]
  | _ => []

/-- The item that is out of its slot while the slot is not yet free. -/
def Consumer.taken : Consumer T N → List T
  | .publish item _ => [item]
  | _ => []

section Invariant

variable [NeZero N]

/-- What the producer knows after `p` pushes, when there have been `c` pops. -/
def Producer.Knows (p c : ℕ) : Producer T N → Prop
  | .idle => True
  | .readTail _ h => h = slot N p
  | .compare _ h t => h = slot N p ∧ ∃ c' ≤ c, p < c' + N ∧ t = slot N c'
  | .write _ h => h = slot N p ∧ p + 1 < c + N
  | .publish _ h => h = slot N p

/-- What the consumer knows after `c` pops, when there have been `p` pushes. -/
def Consumer.Knows (p c : ℕ) : Consumer T N → Prop
  | .readHead t => t = slot N c
  | .compare t h => t = slot N c ∧ ∃ p' ≤ p, c ≤ p' ∧ p' < c + N ∧ h = slot N p'
  | .read t => t = slot N c ∧ c < p
  | .publish _ t => t = slot N c
  | _ => True

lemma Producer.Knows.mono {pc : Producer T N} {p c c' : ℕ} (h : pc.Knows p c) (hle : c ≤ c') :
    pc.Knows p c' := by
  cases pc with
  | compare item hd t =>
    obtain ⟨hhd, c₀, hc₀, hlt, ht⟩ := h
    exact ⟨hhd, c₀, hc₀.trans hle, hlt, ht⟩
  | write item hd => exact ⟨h.1, by have := h.2; omega⟩
  | _ => exact h

lemma Consumer.Knows.mono {pc : Consumer T N} {p p' c : ℕ} (h : pc.Knows p c) (hle : p ≤ p') :
    pc.Knows p' c := by
  cases pc with
  | compare t hd =>
    obtain ⟨ht, p₀, hp₀, hc⟩ := h
    exact ⟨ht, p₀, hp₀.trans hle, hc⟩
  | read t => exact ⟨h.1, by have := h.2; omega⟩
  | _ => exact h

/-- The state of the threads after `xs` have been pushed and `ys` have been popped. -/
structure Shared.Inv (s : Shared T N) (xs ys : List T) : Prop where
  head : s.queue.head = slot N xs.length
  tail : s.queue.tail = slot N ys.length
  /-- The consumer has taken the first of the pushed items. -/
  taken : ys ++ s.consumer.taken <+: xs
  /-- There is room for what the producer has written. -/
  room : (xs ++ s.producer.written).length < ys.length + N
  /-- Every item that has been written and not taken is in its slot. -/
  live : ∀ i x, (ys ++ s.consumer.taken).length ≤ i →
    (xs ++ s.producer.written)[i]? = some x → s.queue.buf (slot N i) = x
  producer : s.producer.Knows xs.length ys.length
  consumer : s.consumer.Knows xs.length ys.length

namespace Shared

variable {s t : Shared T N} {xs ys : List T} {moved : T → T}

lemma Inv.le (h : s.Inv xs ys) : ys.length ≤ xs.length := by
  have := h.taken.length_le
  rw [List.length_append] at this
  omega

/-- A read of shared memory changes the reader's knowledge only. -/
lemma Inv.producer_reads {pc : Producer T N} (h : s.Inv xs ys)
    (hw : pc.written = s.producer.written) (hk : pc.Knows xs.length ys.length) :
    Inv { s with producer := pc } xs ys where
  head := h.head
  tail := h.tail
  taken := h.taken
  room := hw ▸ h.room
  live := fun i x hi hx => h.live i x hi (hw ▸ hx)
  producer := hk
  consumer := h.consumer

@[inherit_doc Inv.producer_reads]
lemma Inv.consumer_reads {pc : Consumer T N} (h : s.Inv xs ys)
    (hw : pc.taken = s.consumer.taken) (hk : pc.Knows xs.length ys.length) :
    Inv { s with consumer := pc } xs ys where
  head := h.head
  tail := h.tail
  taken := hw ▸ h.taken
  room := h.room
  live := fun i x hi hx => h.live i x (hw ▸ hi) hx
  producer := h.producer
  consumer := hk

/-- The room that the producer sees is there: the slot after `head` is not the slot that the
consumer reads next. -/
lemma room_of_compare {p c c' : ℕ} {hd : Fin N} (hN : N &&& (N - 1) = 0) (hhd : hd = slot N p)
    (hc : c' ≤ c) (hlt : p < c' + N) (hne : next hd ≠ slot N c') :
    p + 1 < c + N := by
  by_contra hge
  have hp : p + 1 = c' + N := by omega
  refine hne ?_
  rw [hhd, next_slot hN, hp]
  ext
  show (c' + N) % N = c' % N
  exact Nat.add_mod_right c' N

/-- The producer's next step keeps the invariant. -/
lemma Inv.producerStep (h : s.Inv xs ys) (hs : s.producerStep = some t) :
    t.Inv (xs ++ pushed (s.returned .producer)) (ys ++ popped (s.returned .producer)) := by
  obtain ⟨q, producer, consumer⟩ := s
  cases producer with
  | idle => exact absurd hs (by simp [Shared.producerStep])
  | readTail item hd =>
    -- the copy of the tail is exact when it is made
    obtain rfl := Option.some.inj hs
    have hroom : (xs ++ []).length < ys.length + N := h.room
    rw [List.append_nil] at hroom
    simp only [returned, pushed, popped, List.filterMap_nil, List.append_nil]
    exact h.producer_reads rfl ⟨h.producer, ys.length, le_rfl, hroom, h.tail⟩
  | compare item hd tl =>
    obtain rfl := Option.some.inj hs
    obtain ⟨hhd, c', hc', hlt, rfl⟩ := h.producer
    by_cases hfull : next hd = slot N c'
    · simp only [returned, if_pos hfull, pushed, popped, List.filterMap_cons,
        List.filterMap_nil, List.append_nil]
      exact h.producer_reads rfl trivial
    · simp only [returned, if_neg hfull, pushed, popped, List.filterMap_nil, List.append_nil]
      exact h.producer_reads rfl ⟨hhd, room_of_compare q.two_pow hhd hc' hlt hfull⟩
  | write item hd =>
    -- the slot that is written holds none of the items that are still to be read
    obtain rfl := Option.some.inj hs
    obtain ⟨rfl, hroom⟩ := h.producer
    simp only [returned, pushed, popped, List.filterMap_nil, List.append_nil]
    have hroom' : (xs ++ [item]).length < ys.length + N := by
      rw [List.length_append, List.length_singleton]
      omega
    refine ⟨h.head, h.tail, h.taken, hroom', fun i x hi hx => ?_, rfl, h.consumer⟩
    change (xs ++ [item])[i]? = some x at hx
    show Function.update q.buf (slot N xs.length) item (slot N i) = x
    rcases Nat.lt_or_ge i xs.length with hlt | hge
    · have hne : slot N i ≠ slot N xs.length := by
        intro heq
        rw [List.length_append] at hi
        have := (slot_inj hlt.le (by omega)).mp heq
        omega
      rw [List.getElem?_append_left hlt] at hx
      rw [Function.update_of_ne hne]
      exact h.live i x hi (by rw [List.getElem?_append_left hlt, hx])
    · obtain rfl : i = xs.length := by
        have := (List.getElem?_eq_some_iff.mp hx).1
        rw [List.length_append, List.length_singleton] at this
        omega
      rw [List.getElem?_concat_length, Option.some_inj] at hx
      rw [Function.update_self, hx]
  | publish item hd =>
    obtain rfl := Option.some.inj hs
    obtain rfl : hd = slot N xs.length := h.producer
    simp only [returned, pushed, popped, List.filterMap_cons, List.filterMap_nil, List.append_nil]
    have hroom : (xs ++ [item]).length < ys.length + N := h.room
    refine ⟨?_, h.tail, h.taken.trans (List.prefix_append _ _), ?_, fun i x hi hx => ?_, trivial,
      h.consumer.mono (by rw [List.length_append]; omega)⟩
    · show next (slot N xs.length) = slot N (xs ++ [item]).length
      rw [next_slot q.two_pow, List.length_append, List.length_singleton]
    · simpa only [Producer.written, List.append_nil] using hroom
    · exact h.live i x hi (by simpa only [Producer.written, List.append_nil] using hx)

/-- The consumer's next step keeps the invariant. -/
lemma Inv.consumerStep (h : s.Inv xs ys) (hs : s.consumerStep moved = some t) :
    t.Inv (xs ++ pushed (s.returned .consumer)) (ys ++ popped (s.returned .consumer)) := by
  obtain ⟨q, producer, consumer⟩ := s
  have hroom : (xs ++ producer.written).length < ys.length + N := h.room
  rw [List.length_append] at hroom
  cases consumer with
  | idle => exact absurd hs (by simp [Shared.consumerStep])
  | readHead tl =>
    obtain rfl := Option.some.inj hs
    simp only [returned, pushed, popped, List.filterMap_nil, List.append_nil]
    exact h.consumer_reads rfl ⟨h.consumer, xs.length, le_rfl, h.le, by omega, h.head⟩
  | compare tl hd =>
    obtain rfl := Option.some.inj hs
    obtain ⟨rfl, p', hp', hc, hlt, rfl⟩ := h.consumer
    by_cases hempty : slot N ys.length = slot N p'
    · simp only [returned, if_pos hempty, pushed, popped, List.filterMap_cons,
        List.filterMap_nil, List.append_nil]
      exact h.consumer_reads rfl trivial
    · simp only [returned, if_neg hempty, pushed, popped, List.filterMap_nil, List.append_nil]
      have hne : ys.length ≠ p' := fun heq => hempty (by rw [heq])
      exact h.consumer_reads rfl ⟨rfl, by omega⟩
  | read tl =>
    -- the item that is read is the first that has not been popped
    obtain rfl := Option.some.inj hs
    obtain ⟨rfl, hlt⟩ := h.consumer
    simp only [returned, pushed, popped, List.filterMap_nil, List.append_nil]
    have htaken : ys <+: xs := by simpa only [Consumer.taken, List.append_nil] using h.taken
    have hread : q.buf (slot N ys.length) = xs[ys.length] :=
      h.live ys.length _ (by simp only [Consumer.taken, List.append_nil]; rfl)
        (by rw [List.getElem?_append_left hlt, List.getElem?_eq_getElem hlt])
    refine ⟨h.head, h.tail, ?_, h.room, fun i x hi hx => ?_, h.producer, rfl⟩
    · show ys ++ [q.buf (slot N ys.length)] <+: xs
      rw [hread]
      obtain ⟨zs, rfl⟩ := htaken
      cases zs with
      | nil => simp at hlt
      | cons z zs => simp
    · change (ys ++ [q.buf (slot N ys.length)]).length ≤ i at hi
      rw [List.length_append, List.length_singleton] at hi
      have hlen : i < (xs ++ producer.written).length := (List.getElem?_eq_some_iff.mp hx).1
      rw [List.length_append] at hlen
      have hne : slot N i ≠ slot N ys.length := by
        intro heq
        have := (slot_inj (by omega) (by omega)).mp heq.symm
        omega
      show Function.update q.buf (slot N ys.length) _ (slot N i) = x
      rw [Function.update_of_ne hne]
      exact h.live i x (by simp only [Consumer.taken, List.append_nil]; omega) hx
  | publish item tl =>
    obtain rfl := Option.some.inj hs
    obtain rfl : tl = slot N ys.length := h.consumer
    simp only [returned, pushed, popped, List.filterMap_cons, List.filterMap_nil, List.append_nil]
    have htaken : ys ++ [item] <+: xs := h.taken
    refine ⟨h.head, ?_, ?_, ?_, fun i x hi hx => ?_,
      h.producer.mono (by rw [List.length_append]; omega), trivial⟩
    · show next (slot N ys.length) = slot N (ys ++ [item]).length
      rw [next_slot q.two_pow, List.length_append, List.length_singleton]
    · simpa only [Consumer.taken, List.append_nil] using htaken
    · show (xs ++ producer.written).length < (ys ++ [item]).length + N
      rw [List.length_append, List.length_append]
      omega
    · exact h.live i x (by simpa only [Consumer.taken, List.append_nil] using hi) hx
  | emptyReadHead tl =>
    obtain rfl := Option.some.inj hs
    simp only [returned, pushed, popped, List.filterMap_nil, List.append_nil]
    exact h.consumer_reads rfl trivial
  | emptyCompare tl hd =>
    obtain rfl := Option.some.inj hs
    simp only [returned, pushed, popped, List.filterMap_cons, List.filterMap_nil, List.append_nil]
    exact h.consumer_reads rfl trivial

/-- **Every step keeps the invariant**, for the items that have been pushed and popped after
it. -/
theorem Inv.step {a : Access T} (h : s.Inv xs ys) (hs : s.step moved a = some t) :
    t.Inv (xs ++ pushed (s.returned a)) (ys ++ popped (s.returned a)) := by
  cases a with
  | producer => exact h.producerStep hs
  | consumer => exact h.consumerStep hs
  | push item =>
    obtain ⟨q, _ | _ | _ | _ | _, consumer⟩ := s <;> simp only [Shared.step, reduceCtorEq] at hs
    obtain rfl := Option.some.inj hs
    simp only [returned, pushed, popped, List.filterMap_nil, List.append_nil]
    exact h.producer_reads rfl h.head
  | pop =>
    obtain ⟨q, producer, _ | _ | _ | _ | _ | _ | _⟩ := s <;>
      simp only [Shared.step, reduceCtorEq] at hs
    obtain rfl := Option.some.inj hs
    simp only [returned, pushed, popped, List.filterMap_nil, List.append_nil]
    exact h.consumer_reads rfl h.tail
  | empty =>
    obtain ⟨q, producer, _ | _ | _ | _ | _ | _ | _⟩ := s <;>
      simp only [Shared.step, reduceCtorEq] at hs
    obtain rfl := Option.some.inj hs
    simp only [returned, pushed, popped, List.filterMap_nil, List.append_nil]
    exact h.consumer_reads rfl trivial

end Shared

end Invariant

/-! ## Runs -/

namespace Shared

variable {s t : Shared T N} {moved : T → T}

/-- `RunTo moved slots as s`: the steps `as` of the two threads lead from a new buffer to `s`. -/
abbrev RunTo (moved : T → T) (slots : Fin (2 ^ k) → T) (as : List (Access T))
    (s : Shared T (2 ^ k)) : Prop :=
  Transition.Reaches (step moved) (fun _ _ => True) (start slots) as s

/-- What the calls of a run return, in the order in which they end. -/
abbrev returns (moved : T → T) (slots : Fin (2 ^ k) → T) (as : List (Access T)) :
    List (Return T) :=
  Transition.collect (step moved) returned (start slots) as

lemma inv_of_run {slots : Fin (2 ^ k) → T} {as : List (Access T)} {s : Shared T (2 ^ k)}
    (h : RunTo moved slots as s) :
    s.Inv (pushed (returns moved slots as)) (popped (returns moved slots as)) := by
  induction h with
  | refl =>
    refine ⟨rfl, rfl, List.nil_prefix, ?_, fun i x _ hx => absurd hx (by simp [returns,
      Transition.collect, pushed, start, Producer.written]), trivial, trivial⟩
    simp [returns, Transition.collect, pushed, popped, start, Producer.written]
  | snoc h _ hstep ih =>
    rw [returns, h.collect_snoc, pushed_append, popped_append]
    exact ih.step hstep

/-- The invariant along a run from any state. -/
lemma Inv.run [NeZero N] {as : List (Access T)} {xs ys : List T} (h : s.Inv xs ys)
    (hrun : Transition.run (Shared.step moved) s as = some t) :
    t.Inv (xs ++ pushed (Transition.collect (Shared.step moved) returned s as))
      (ys ++ popped (Transition.collect (Shared.step moved) returned s as)) := by
  induction as generalizing s xs ys with
  | nil =>
    obtain rfl := Option.some.inj hrun
    simpa [Transition.collect, pushed, popped] using h
  | cons a as ih =>
    obtain ⟨u, hu, hrun⟩ := Option.bind_eq_some_iff.mp hrun
    rw [Transition.collect, hu, Option.map_some, Option.getD_some, pushed_append, popped_append,
      ← List.append_assoc, ← List.append_assoc]
    exact ih (h.step hu) hrun

/-! ### Calls with no step of the other thread in between -/

/-- The steps of a call of `push` by itself. -/
def pushSteps (item : T) (n : ℕ) : List (Access T) := .push item :: List.replicate n .producer

/-- The steps of a call of `pop` by itself. -/
def popSteps (n : ℕ) : List (Access T) := .pop :: List.replicate n .consumer

/-- A call of `push` that no step of the consumer interrupts leads from `s` to `t` and
returns `r`. -/
def PushAlone (moved : T → T) (s : Shared T N) (item : T) (t : Shared T N) (r : Return T) : Prop :=
  ∃ n, Transition.run (step moved) s (pushSteps item n) = some t ∧ t.producer = .idle ∧
    Transition.collect (step moved) returned s (pushSteps item n) = [r]

/-- A call of `pop` that no step of the producer interrupts leads from `s` to `t` and
returns `r`. -/
def PopAlone (moved : T → T) (s t : Shared T N) (r : Return T) : Prop :=
  ∃ n, Transition.run (step moved) s (popSteps n) = some t ∧ t.consumer = .idle ∧
    Transition.collect (step moved) returned s (popSteps n) = [r]

lemma PushAlone.unique {item : T} {t' : Shared T N} {r r' : Return T}
    (h : PushAlone moved s item t r) (h' : PushAlone moved s item t' r') : r = r' := by
  obtain ⟨n, hrun, ht, hr⟩ := h
  obtain ⟨n', hrun', ht', hr'⟩ := h'
  obtain ⟨u, hu, hrun⟩ := Option.bind_eq_some_iff.mp hrun
  obtain ⟨u', hu', hrun'⟩ := Option.bind_eq_some_iff.mp hrun'
  obtain rfl := Option.some.inj (hu.symm.trans hu')
  have hstop : ∀ v : Shared T N, v.producer = .idle → v.step moved .producer = none := by
    intro v hv
    simp [step, producerStep, hv]
  rw [Transition.run_replicate_unique hrun hrun' (hstop t ht) (hstop t' ht'), hr'] at hr
  exact (List.singleton_inj.mp hr).symm

lemma PopAlone.unique {t' : Shared T N} {r r' : Return T} (h : PopAlone moved s t r)
    (h' : PopAlone moved s t' r') : r = r' := by
  obtain ⟨n, hrun, ht, hr⟩ := h
  obtain ⟨n', hrun', ht', hr'⟩ := h'
  obtain ⟨u, hu, hrun⟩ := Option.bind_eq_some_iff.mp hrun
  obtain ⟨u', hu', hrun'⟩ := Option.bind_eq_some_iff.mp hrun'
  obtain rfl := Option.some.inj (hu.symm.trans hu')
  have hstop : ∀ v : Shared T N, v.consumer = .idle → v.step moved .consumer = none := by
    intro v hv
    simp [step, consumerStep, hv]
  rw [Transition.run_replicate_unique hrun hrun' (hstop t ht) (hstop t' ht'), hr'] at hr
  exact (List.singleton_inj.mp hr).symm

/-- A call of `push` by itself is `push`. -/
lemma pushAlone_of_none (moved : T → T) {item : T} (hidle : s.producer = .idle)
    (hpush : s.queue.push item = none) : PushAlone moved s item s .notPushed := by
  obtain ⟨q, producer, consumer⟩ := s
  obtain rfl : producer = .idle := hidle
  have hfull : next q.head = q.tail := by
    by_contra hne
    simp [push, hne] at hpush
  refine ⟨2, ?_, rfl, ?_⟩
  · simp [pushSteps, List.replicate_succ, Transition.run, step, producerStep, hfull]
  · simp [pushSteps, List.replicate_succ, Transition.collect, step, producerStep, returned, hfull]

@[inherit_doc pushAlone_of_none]
lemma pushAlone_of_some (moved : T → T) {item : T} {q : RingBuffer T N}
    (hidle : s.producer = .idle)
    (hpush : s.queue.push item = some q) :
    PushAlone moved s item { s with queue := q } (.pushed item) := by
  obtain ⟨q₀, producer, consumer⟩ := s
  obtain rfl : producer = .idle := hidle
  have hroom : next q₀.head ≠ q₀.tail := fun heq => by simp [push, heq] at hpush
  obtain rfl : { q₀ with buf := Function.update q₀.buf q₀.head item, head := next q₀.head } = q :=
    Option.some.inj ((if_neg hroom).symm.trans hpush)
  refine ⟨4, ?_, rfl, ?_⟩
  · simp [pushSteps, List.replicate_succ, Transition.run, step, producerStep, hroom]
  · simp [pushSteps, List.replicate_succ, Transition.collect, step, producerStep, returned, hroom]

/-- A call of `pop` by itself is `pop`. -/
lemma popAlone_of_none (hidle : s.consumer = .idle) (hpop : s.queue.pop moved = none) :
    PopAlone moved s s .notPopped := by
  obtain ⟨q, producer, consumer⟩ := s
  obtain rfl : consumer = .idle := hidle
  have hempty : q.tail = q.head := by
    by_contra hne
    simp [pop, hne] at hpop
  refine ⟨2, ?_, rfl, ?_⟩
  · simp [popSteps, List.replicate_succ, Transition.run, step, consumerStep, hempty]
  · simp [popSteps, List.replicate_succ, Transition.collect, step, consumerStep, returned, hempty]

@[inherit_doc popAlone_of_none]
lemma popAlone_of_some {item : T} {q : RingBuffer T N} (hidle : s.consumer = .idle)
    (hpop : s.queue.pop moved = some (item, q)) :
    PopAlone moved s { s with queue := q } (.popped item) := by
  obtain ⟨q₀, producer, consumer⟩ := s
  obtain rfl : consumer = .idle := hidle
  have hne : q₀.tail ≠ q₀.head := fun heq => by simp [pop, heq] at hpop
  have heq := Option.some.inj ((if_neg hne).symm.trans hpop)
  obtain ⟨rfl, rfl⟩ := Prod.mk.inj heq
  refine ⟨4, ?_, rfl, ?_⟩
  · simp [popSteps, List.replicate_succ, Transition.run, step, consumerStep, hne]
  · simp [popSteps, List.replicate_succ, Transition.collect, step, consumerStep, returned, hne]

/-- **The ring buffer is a bounded queue**: under every interleaving of the accesses of a
producer and a consumer, the items popped are the first of the items pushed, in the order in
which they were pushed, and at most `N - 1` items are in the buffer.  A call that the other
thread does not interrupt fails only when the buffer is full, or empty. -/
theorem bounded_fifo {slots : Fin (2 ^ k) → T} {as : List (Access T)} {s : Shared T (2 ^ k)}
    (h : RunTo moved slots as s) :
    popped (returns moved slots as) <+: pushed (returns moved slots as) ∧
    (pushed (returns moved slots as)).length - (popped (returns moved slots as)).length ≤
      2 ^ k - 1 ∧
    (s.producer = .idle → ∀ item,
      ((∃ t, PushAlone moved s item t .notPushed) ↔
        (pushed (returns moved slots as)).length - (popped (returns moved slots as)).length =
          2 ^ k - 1) ∧
      ((∃ t, PushAlone moved s item t (.pushed item)) ↔
        (pushed (returns moved slots as)).length - (popped (returns moved slots as)).length ≠
          2 ^ k - 1)) ∧
    (s.consumer = .idle →
      ((∃ t, PopAlone moved s t .notPopped) ↔
        (pushed (returns moved slots as)).length - (popped (returns moved slots as)).length =
          0) ∧
      ((∃ t item, PopAlone moved s t (.popped item)) ↔
        (pushed (returns moved slots as)).length - (popped (returns moved slots as)).length ≠
          0)) := by
  have hinv := inv_of_run h
  have hroom := hinv.room
  rw [List.length_append] at hroom
  refine ⟨(List.prefix_append _ _).trans hinv.taken, by omega, fun hidle item => ?_,
    fun hidle => ?_⟩
  · have hfull := push_eq_none hinv.head hinv.tail hinv.le (by omega) item
    cases hpush : s.queue.push item with
    | none =>
      have halone := pushAlone_of_none moved hidle hpush
      refine ⟨iff_of_true ⟨s, halone⟩ (hfull.mp hpush),
        iff_of_false ?_ (not_not_intro (hfull.mp hpush))⟩
      rintro ⟨t, ht⟩
      nomatch ht.unique halone
    | some q =>
      have halone := pushAlone_of_some moved hidle hpush
      have hnot : _ ≠ 2 ^ k - 1 := mt hfull.mpr (by simp [hpush])
      refine ⟨iff_of_false ?_ hnot, iff_of_true ⟨_, halone⟩ hnot⟩
      rintro ⟨t, ht⟩
      nomatch ht.unique halone
  · have hempty := pop_eq_none moved hinv.head hinv.tail hinv.le (by omega)
    cases hpop : s.queue.pop moved with
    | none =>
      have halone := popAlone_of_none hidle hpop
      refine ⟨iff_of_true ⟨s, halone⟩ (hempty.mp hpop),
        iff_of_false ?_ (not_not_intro (hempty.mp hpop))⟩
      rintro ⟨t, item, ht⟩
      nomatch ht.unique halone
    | some r =>
      have halone := popAlone_of_some hidle hpop
      have hnot : _ ≠ 0 := mt hempty.mpr (by simp [hpop])
      refine ⟨iff_of_false ?_ hnot, iff_of_true ⟨_, _, halone⟩ hnot⟩
      rintro ⟨t, ht⟩
      nomatch ht.unique halone

/-- The theorem at a buffer of four slots: the consumer reads the index of the producer before
the second item is published, and takes the first. -/
theorem bounded_fifo_sample :
    let as : List (Access ℕ) :=
      pushSteps 7 4 ++ [.push 8, .producer, .pop, .producer, .consumer, .producer, .consumer,
        .consumer, .producer, .consumer]
    pushed (returns id (fun _ : Fin (2 ^ 2) => 0) as) = [7, 8] ∧
      popped (returns id (fun _ : Fin (2 ^ 2) => 0) as) = [7] ∧
      popped (returns id (fun _ : Fin (2 ^ 2) => 0) as) <+:
        pushed (returns id (fun _ : Fin (2 ^ 2) => 0) as) := by
  refine ⟨rfl, rfl, (bounded_fifo (Transition.reaches_of_run rfl
    (Transition.allowed_of_forall (fun _ _ => trivial) _ _))).1⟩

end Shared

/-! ## The queue that a buffer holds -/

section Holds

variable [NeZero N] {moved : T → T}

/-- Between calls, the buffer holds the items that have been pushed and not popped. -/
def Holds (q : RingBuffer T N) (items : List T) : Prop :=
  ∃ ys, (⟨q, .idle, .idle⟩ : Shared T N).Inv (ys ++ items) ys

/-- What a call of `push` by itself does to the queue: it fails when `N - 1` items are in it. -/
lemma Holds.push {q : RingBuffer T N} {items : List T} (h : q.Holds items) (item : T) :
    match q.push item with
    | none => items.length + 1 = N
    | some q' => items.length + 1 < N ∧ q'.Holds (items ++ [item]) := by
  obtain ⟨ys, hinv⟩ := h
  have hroom : (ys ++ items ++ []).length < ys.length + N := hinv.room
  rw [List.append_nil, List.length_append] at hroom
  have hfull := push_eq_none hinv.head hinv.tail hinv.le (by rw [List.length_append]; omega) item
  rw [List.length_append] at hfull
  have hpos : 0 < N := NeZero.pos N
  cases hpush : q.push item with
  | none =>
    have := hfull.mp hpush
    show items.length + 1 = N
    omega
  | some q' =>
    have hne : ¬ (ys.length + items.length - ys.length = N - 1) := mt hfull.mpr (by simp [hpush])
    obtain ⟨n, hrun, -, hret⟩ :=
      Shared.pushAlone_of_some (s := ⟨q, .idle, .idle⟩) id rfl hpush
    refine ⟨by omega, ys, ?_⟩
    have := hinv.run hrun
    rw [hret] at this
    simpa [pushed, popped] using this

/-- What a call of `pop` by itself does to the queue. -/
lemma Holds.pop {q : RingBuffer T N} {items : List T} (h : q.Holds items) (moved : T → T) :
    match q.pop moved with
    | none => items = []
    | some (item, q') => ∃ rest, items = item :: rest ∧ q'.Holds rest := by
  obtain ⟨ys, hinv⟩ := h
  have hroom : (ys ++ items ++ []).length < ys.length + N := hinv.room
  rw [List.append_nil, List.length_append] at hroom
  have hempty := pop_eq_none moved hinv.head hinv.tail hinv.le
    (by rw [List.length_append]; omega)
  rw [List.length_append] at hempty
  cases hpop : q.pop moved with
  | none =>
    have := hempty.mp hpop
    exact List.eq_nil_of_length_eq_zero (by omega)
  | some r =>
    obtain ⟨item, q'⟩ := r
    obtain ⟨n, hrun, -, hret⟩ :=
      Shared.popAlone_of_some (s := ⟨q, .idle, .idle⟩) rfl hpop
    have hinv' := hinv.run hrun
    rw [hret] at hinv'
    -- the item that is popped is the next of those that have been pushed
    have hpre : ys ++ [item] <+: ys ++ items := by
      have := (List.prefix_append _ _).trans hinv'.taken
      simpa [pushed, popped] using this
    obtain ⟨rest, rfl⟩ := (List.prefix_append_right_inj ys).mp hpre
    refine ⟨rest, rfl, ys ++ [item], ?_⟩
    simpa [pushed, popped] using hinv'

end Holds

end RingBuffer

end FixExchange
