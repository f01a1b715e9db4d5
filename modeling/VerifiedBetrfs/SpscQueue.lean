import Mathlib.Data.List.Basic

/-!
# The single-producer single-consumer queue

Either side may run between the load, the access and the store of the other.  The proof counts the
accepted and the returned items without wrapping.
-/

namespace VerifiedBetrfs.SpscQueue

open Function (update update_of_ne update_self)

variable {Item : Type}

def size : Nat := 32

/-- Before the load of `tail`, the write of the cell, or the store of `head`.  The item is kept for
the history. -/
inductive Producer (Item : Type) where
  | idle (head : Nat)
  | writing (head : Nat) (item : Item)
  | storing (head : Nat) (item : Item)

/-- Before the load of `head`, the read of the cell, or the store of `tail`. -/
inductive Consumer (Item : Type) where
  | idle (tail : Nat)
  | reading (tail : Nat)
  | storing (tail : Nat) (item : Item)

/-- The cells, the two indices, and where the two threads are. -/
structure Queue (Item : Type) where
  cells : Nat → Option Item
  head : Nat
  tail : Nat
  producer : Producer Item
  consumer : Consumer Item

def initial : Queue Item := ⟨fun _ => none, 0, 0, .idle 0, .idle 0⟩

/-- What a call does to its caller. -/
inductive Event (Item : Type) where
  | accepted (item : Item)
  | handedBack (item : Item)
  | returned (item : Item)
  | nothing

/-- The atomic steps of both threads.  A cell is written when it is empty, and read when it
holds an item. -/
inductive Step : Queue Item → Option (Event Item) → Queue Item → Prop
  | produceLoad {queue : Queue Item} {head : Nat} (item : Item)
      (idle : queue.producer = .idle head) (room : (head + 1) % size ≠ queue.tail) :
      Step queue none { queue with producer := .writing head item }
  | produceFull {queue : Queue Item} {head : Nat} (item : Item)
      (idle : queue.producer = .idle head) (full : (head + 1) % size = queue.tail) :
      Step queue (some (.handedBack item)) queue
  | write {queue : Queue Item} {head : Nat} {item : Item}
      (writing : queue.producer = .writing head item) (empty : queue.cells head = none) :
      Step queue none
        { queue with
          cells := update queue.cells head (some item)
          producer := .storing head item }
  | storeHead {queue : Queue Item} {head : Nat} {item : Item}
      (storing : queue.producer = .storing head item) :
      Step queue (some (.accepted item))
        { queue with head := (head + 1) % size, producer := .idle ((head + 1) % size) }
  | consumeLoad {queue : Queue Item} {tail : Nat}
      (idle : queue.consumer = .idle tail) (waiting : queue.head ≠ tail) :
      Step queue none { queue with consumer := .reading tail }
  | consumeNothing {queue : Queue Item} {tail : Nat}
      (idle : queue.consumer = .idle tail) (empty : queue.head = tail) :
      Step queue (some .nothing) queue
  | read {queue : Queue Item} {tail : Nat} {item : Item}
      (reading : queue.consumer = .reading tail) (full : queue.cells tail = some item) :
      Step queue none
        { queue with
          cells := update queue.cells tail none
          consumer := .storing tail item }
  | storeTail {queue : Queue Item} {tail : Nat} {item : Item}
      (storing : queue.consumer = .storing tail item) :
      Step queue (some (.returned item))
        { queue with tail := (tail + 1) % size, consumer := .idle ((tail + 1) % size) }

/-- The states after any interleaving, with the events so far. -/
inductive Reached : Queue Item → List (Event Item) → Prop
  | initial : Reached initial []
  | step {queue queue' : Queue Item} {events : List (Event Item)} {event : Option (Event Item)}
      (reached : Reached queue events) (step : Step queue event queue') :
      Reached queue' (events ++ event.toList)

def Event.accepted? : Event Item → Option Item
  | .accepted item => some item
  | _ => none

def Event.returned? : Event Item → Option Item
  | .returned item => some item
  | _ => none

/-- The items that were put in. -/
def accepted (events : List (Event Item)) : List Item := events.filterMap Event.accepted?

/-- The items that were taken out. -/
def returned (events : List (Event Item)) : List Item := events.filterMap Event.returned?

section Events

variable (events : List (Event Item)) (item : Item)

@[simp]
theorem accepted_append_toList (event : Option (Event Item)) :
    accepted (events ++ event.toList) = accepted events ++ (event.bind Event.accepted?).toList := by
  cases event with
  | none => simp [accepted]
  | some event => cases event <;> simp [accepted, Event.accepted?]

@[simp]
theorem returned_append_toList (event : Option (Event Item)) :
    returned (events ++ event.toList) = returned events ++ (event.bind Event.returned?).toList := by
  cases event with
  | none => simp [returned]
  | some event => cases event <;> simp [returned, Event.returned?]

end Events

def Producer.head : Producer Item → Nat
  | .idle head | .writing head _ | .storing head _ => head

def Consumer.tail : Consumer Item → Nat
  | .idle tail | .reading tail | .storing tail _ => tail

/-- The item that the producer wrote to its cell but has not published yet. -/
def Producer.pending : Producer Item → Option Item
  | .storing _ item => some item
  | _ => none

/-- The item that the consumer took from its cell but has not returned yet. -/
def Consumer.taken : Consumer Item → Option Item
  | .storing _ item => some item
  | _ => none

/-- What the cell of the count `k` holds after `ins` were accepted and `outs` returned. -/
def expected (queue : Queue Item) (ins outs : List Item) (k : Nat) : Option Item :=
  if k = outs.length ∧ queue.consumer.taken.isSome then none
  else if k = ins.length then queue.producer.pending
  else ins[k]?

/-- The indices are the two counts, and the `size` cells from the returned items on hold what they
should. -/
structure Counts (queue : Queue Item) (ins outs : List Item) : Prop where
  head : queue.head = ins.length % size
  tail : queue.tail = outs.length % size
  producerHead : queue.producer.head = queue.head
  consumerTail : queue.consumer.tail = queue.tail
  order : outs <+: ins
  room : ins.length < outs.length + size
  producing : (∀ head, queue.producer ≠ .idle head) → ins.length + 1 < outs.length + size
  consuming : (∀ tail, queue.consumer ≠ .idle tail) → outs.length < ins.length
  taken : ∀ item, queue.consumer.taken = some item → ins[outs.length]? = some item
  cells : ∀ k, outs.length ≤ k → k < outs.length + size →
    queue.cells (k % size) = expected queue ins outs k

section Steps

variable {queue queue' : Queue Item} {ins outs : List Item} {head tail : Nat} {item : Item}

theorem counts_initial : Counts (initial : Queue Item) [] [] where
  head := rfl
  tail := rfl
  producerHead := rfl
  consumerTail := rfl
  order := List.prefix_rfl
  room := Nat.zero_lt_succ 31
  producing := fun busy => absurd rfl (busy 0)
  consuming := fun busy => absurd rfl (busy 0)
  taken := nofun
  cells := by
    intro k _ _
    simp [initial, expected, Producer.pending, Consumer.taken]

theorem lt_add_size (k : Nat) : k < k + size := Nat.lt_add_of_pos_right (Nat.zero_lt_succ 31)

theorem eq_of_mod_eq {start k j : Nat} (kFrom : start ≤ k) (kTo : k < start + size)
    (jFrom : start ≤ j) (jTo : j < start + size) (same : k % size = j % size) : k = j := by
  unfold size at *
  omega

theorem mod_succ (k : Nat) : (k % size + 1) % size = (k + 1) % size := by
  unfold size
  omega

section

variable (counts : Counts queue ins outs)

include counts

theorem Counts.producer_head {producer : Producer Item}
    (isProducer : queue.producer = producer) : producer.head = ins.length % size := by
  rw [← isProducer, counts.producerHead, counts.head]

theorem Counts.consumer_tail {consumer : Consumer Item}
    (isConsumer : queue.consumer = consumer) : consumer.tail = outs.length % size := by
  rw [← isConsumer, counts.consumerTail, counts.tail]

theorem Counts.not_taken_last : ¬(ins.length = outs.length ∧ queue.consumer.taken.isSome) := by
  rintro ⟨equal, isTaken⟩
  obtain ⟨first, isFirst⟩ := Option.isSome_iff_exists.mp isTaken
  have := counts.taken first isFirst
  rw [← equal, List.getElem?_eq_none (Nat.le_refl _)] at this
  cases this

theorem Counts.produceLoad
    (idle : queue.producer = .idle head) (room : (head + 1) % size ≠ queue.tail) :
    Counts { queue with producer := .writing head item } ins outs := by
  have isHead : head = ins.length % size := counts.producer_head idle
  have within := counts.room
  rw [isHead, mod_succ, counts.tail] at room
  refine { counts with producerHead := isHead.trans counts.head.symm, producing := ?_, cells := ?_ }
  · intro _
    by_contra full
    apply room
    rw [show ins.length + 1 = outs.length + size by omega, Nat.add_mod_right]
  · intro k kFrom kTo
    rw [counts.cells k kFrom kTo, expected, expected, idle]
    rfl

theorem Counts.write (writing : queue.producer = .writing head item) :
    Counts
      { queue with
        cells := update queue.cells head (some item)
        producer := .storing head item } ins outs := by
  have isHead : head = ins.length % size := counts.producer_head writing
  have lower := counts.order.length_le
  have room := counts.producing (by simp [writing])
  refine { counts with
    producerHead := isHead.trans counts.head.symm
    producing := fun _ => room
    cells := ?_ }
  · intro k kFrom kTo
    have old := counts.cells k kFrom kTo
    rw [expected] at old ⊢
    by_cases same : k = ins.length
    · subst same
      rw [if_neg counts.not_taken_last, if_pos rfl, ← isHead]
      exact update_self _ _ _
    · have other : k % size ≠ head := by
        rw [isHead]
        exact fun equal => same (eq_of_mod_eq kFrom kTo lower counts.room equal)
      rw [if_neg same] at old ⊢
      exact (update_of_ne other _ _).trans old

theorem Counts.storeHead (storing : queue.producer = .storing head item) :
    Counts { queue with head := (head + 1) % size, producer := .idle ((head + 1) % size) }
      (ins ++ [item]) outs := by
  have isHead : head = ins.length % size := counts.producer_head storing
  have room := counts.producing (by simp [storing])
  refine { counts with
    head := by simp [isHead, mod_succ]
    producerHead := rfl
    order := counts.order.trans (List.prefix_append _ _)
    room := by simpa using room
    producing := fun busy => absurd rfl (busy _)
    consuming := ?_
    taken := ?_
    cells := ?_ }
  · intro busy
    have := counts.consuming busy
    simp
    omega
  · intro first isTaken
    have isFirst := counts.taken first isTaken
    rw [List.getElem?_append_left (List.getElem?_eq_some_iff.mp isFirst).1, isFirst]
  · intro k kFrom kTo
    have old := counts.cells k kFrom kTo
    refine old.trans ?_
    rw [expected, expected, storing]
    by_cases same : k = ins.length
    · subst same
      simp [Producer.pending]
    · rw [if_neg same]
      congr 1
      split_ifs with isNext
      · rw [isNext]
        simp [Producer.pending]
      · rw [List.getElem?_append]
        split
        · rfl
        · rw [List.getElem?_eq_none (by omega), List.getElem?_eq_none (by simp; omega)]

theorem Counts.consumeLoad (idle : queue.consumer = .idle tail) (waiting : queue.head ≠ tail) :
    Counts { queue with consumer := .reading tail } ins outs := by
  have isTail : tail = outs.length % size := counts.consumer_tail idle
  have lower := counts.order.length_le
  refine { counts with
    consumerTail := isTail.trans counts.tail.symm
    consuming := ?_
    taken := nofun
    cells := ?_ }
  · intro _
    by_contra none
    apply waiting
    rw [counts.head, isTail, show ins.length = outs.length by omega]
  · intro k kFrom kTo
    rw [counts.cells k kFrom kTo, expected, expected, idle]
    rfl

theorem Counts.read (reading : queue.consumer = .reading tail)
    (full : queue.cells tail = some item) :
    Counts
      { queue with
        cells := update queue.cells tail none
        consumer := .storing tail item } ins outs := by
  have isTail : tail = outs.length % size := counts.consumer_tail reading
  have waiting := counts.consuming (by simp [reading])
  refine { counts with
    consumerTail := isTail.trans counts.tail.symm
    consuming := fun _ => waiting
    taken := ?_
    cells := ?_ }
  · rintro _ ⟨⟩
    have old := counts.cells outs.length (Nat.le_refl _) (lt_add_size _)
    rw [← isTail, full, expected, reading, if_neg nofun, if_neg (by omega)] at old
    exact old.symm
  · intro k kFrom kTo
    have old := counts.cells k kFrom kTo
    rw [expected, reading, if_neg nofun] at old
    rw [expected]
    by_cases same : k = outs.length
    · rw [if_pos ⟨same, rfl⟩, same, ← isTail]
      exact update_self _ _ _
    · have other : k % size ≠ tail := by
        rw [isTail]
        exact fun equal =>
          same (eq_of_mod_eq kFrom kTo (Nat.le_refl _) (lt_add_size _) equal)
      rw [if_neg fun isFirst => same isFirst.1]
      exact (update_of_ne other _ _).trans old

theorem Counts.storeTail (storing : queue.consumer = .storing tail item) :
    Counts { queue with tail := (tail + 1) % size, consumer := .idle ((tail + 1) % size) }
      ins (outs ++ [item]) := by
  have isTail : tail = outs.length % size := counts.consumer_tail storing
  have isFirst := counts.taken item (by rw [storing]; rfl)
  have within := counts.room
  refine { counts with
    tail := by simp [isTail, mod_succ]
    consumerTail := rfl
    order := ?_
    room := ?_
    producing := ?_
    consuming := fun busy => absurd rfl (busy _)
    taken := nofun
    cells := ?_ }
  · obtain ⟨rest, isRest⟩ := counts.order
    rw [← isRest, List.getElem?_append_right (Nat.le_refl _), Nat.sub_self] at isFirst
    cases rest with
    | nil => cases isFirst
    | cons first rest =>
      obtain rfl : first = item := Option.some.inj isFirst
      exact ⟨rest, by rw [← isRest, List.append_assoc]; rfl⟩
  · simp only [List.length_append, List.length_singleton]
    omega
  · intro busy
    simp only [List.length_append, List.length_singleton]
    omega
  · intro k kFrom kTo
    simp only [List.length_append, List.length_singleton] at kFrom kTo
    rw [expected, if_neg nofun]
    by_cases inside : k < outs.length + size
    · have old := counts.cells k (by omega) inside
      rw [expected, if_neg (by omega)] at old
      exact old
    · -- the cell that was just read comes back at the end of the window
      obtain rfl : k = outs.length + size := by omega
      have old := counts.cells outs.length (Nat.le_refl _) (lt_add_size _)
      rw [expected, if_pos ⟨rfl, by rw [storing]; rfl⟩] at old
      rw [if_neg (by omega), List.getElem?_eq_none (by omega), Nat.add_mod_right]
      exact old

theorem Counts.step {event : Option (Event Item)} (step : Step queue event queue') :
    Counts queue' (ins ++ (event.bind Event.accepted?).toList)
      (outs ++ (event.bind Event.returned?).toList) := by
  cases step with
  | produceLoad item idle room => simpa using counts.produceLoad idle room
  | produceFull item idle full => simpa [Event.accepted?, Event.returned?] using counts
  | write writing empty => simpa using counts.write writing
  | storeHead storing => simpa [Event.accepted?, Event.returned?] using counts.storeHead storing
  | consumeLoad idle waiting => simpa using counts.consumeLoad idle waiting
  | consumeNothing idle empty => simpa [Event.accepted?, Event.returned?] using counts
  | read reading full => simpa using counts.read reading full
  | storeTail storing => simpa [Event.accepted?, Event.returned?] using counts.storeTail storing

end

theorem Reached.counts {events : List (Event Item)} (reached : Reached queue events) :
    Counts queue (accepted events) (returned events) := by
  induction reached with
  | initial => exact counts_initial
  | step reached step ih =>
    rw [accepted_append_toList, returned_append_toList]
    exact ih.step step

section

variable (counts : Counts queue ins outs)

include counts

theorem Counts.eq_of_empty (idle : queue.consumer = .idle tail)
    (empty : queue.head = tail) : outs = ins := by
  have lower := counts.order.length_le
  have room := counts.room
  have isTail : tail = outs.length % size := counts.consumer_tail idle
  rw [counts.head, isTail] at empty
  have same := eq_of_mod_eq lower room (Nat.le_refl _) (lt_add_size _) empty
  exact counts.order.eq_of_length same.symm

theorem Counts.length_of_full (idle : queue.producer = .idle head)
    (full : (head + 1) % size = queue.tail) : ins.length = outs.length + (size - 1) := by
  have lower := counts.order.length_le
  have room := counts.room
  have isHead : head = ins.length % size := counts.producer_head idle
  rw [isHead, mod_succ, counts.tail] at full
  unfold size at *
  omega

theorem Counts.cell_empty
    (writing : queue.producer = .writing head item) : head < size ∧ queue.cells head = none := by
  have isHead : head = ins.length % size := counts.producer_head writing
  have old := counts.cells ins.length counts.order.length_le counts.room
  rw [expected, if_neg counts.not_taken_last, if_pos rfl, writing, ← isHead] at old
  exact ⟨isHead ▸ Nat.mod_lt _ (Nat.zero_lt_succ 31), old⟩

theorem Counts.cell_full (reading : queue.consumer = .reading tail) :
    tail < size ∧ ∃ item, queue.cells tail = some item := by
  have isTail : tail = outs.length % size := counts.consumer_tail reading
  have waiting := counts.consuming (by simp [reading])
  have old := counts.cells outs.length (Nat.le_refl _) (lt_add_size _)
  rw [expected, reading, if_neg nofun, if_neg (by omega), ← isTail,
    List.getElem?_eq_getElem waiting] at old
  exact ⟨isTail ▸ Nat.mod_lt _ (Nat.zero_lt_succ 31), _, old⟩

end

/-- The items come out in the order in which they went in, at most `size - 1` of them wait, a call
gives up only if the queue was empty or full at its load, and no call gets stuck at its cell. -/
theorem queue_is_fifo {events : List (Event Item)} (reached : Reached queue events) :
    returned events <+: accepted events ∧
      (accepted events).length ≤ (returned events).length + (size - 1) ∧
      (∀ queue', Step queue (some .nothing) queue' → returned events = accepted events) ∧
      (∀ item queue', Step queue (some (.handedBack item)) queue' →
        (accepted events).length = (returned events).length + (size - 1)) ∧
      (∀ head item, queue.producer = .writing head item →
        head < size ∧ queue.cells head = none) ∧
      (∀ tail, queue.consumer = .reading tail →
        tail < size ∧ ∃ item, queue.cells tail = some item) := by
  have counts := reached.counts
  refine ⟨counts.order, Nat.le_of_lt_succ counts.room, ?_, ?_, ?_, ?_⟩
  · intro queue' step
    cases step with
    | consumeNothing idle empty => exact counts.eq_of_empty idle empty
  · intro item queue' step
    cases step with
    | produceFull item idle full => exact counts.length_of_full idle full
  · intro head item writing
    exact counts.cell_empty writing
  · intro tail reading
    exact counts.cell_full reading

/-- Two items wait at once.  The first is taken between the steps of a third call of `produce`. -/
theorem queue_is_fifo_twoItems :
    ∃ queue : Queue Nat, Reached queue [.accepted 5, .accepted 6, .returned 5] ∧
      queue.producer = .writing 2 7 ∧ queue.cells 2 = none ∧
      returned [.accepted 5, .accepted 6, .returned 5] <+:
        accepted [Event.accepted 5, .accepted 6, .returned 5] := by
  have first := ((Reached.initial.step (Step.produceLoad 5 rfl (by decide))).step
    (Step.write rfl rfl)).step (Step.storeHead rfl)
  have second := ((first.step (Step.produceLoad 6 rfl (by decide))).step
    (Step.write rfl rfl)).step (Step.storeHead rfl)
  have seen := second.step (Step.consumeLoad rfl (by decide))
  have loaded := seen.step (Step.produceLoad 7 rfl (by decide))
  have taken := (loaded.step (Step.read rfl rfl)).step (Step.storeTail rfl)
  obtain ⟨inOrder, -, -, -, empty, -⟩ := queue_is_fifo taken
  exact ⟨_, taken, rfl, (empty 2 7 rfl).2, inOrder⟩

end Steps

end VerifiedBetrfs.SpscQueue
