import TermWindow.Demand
import TermWindow.Distance
import TermWindow.Reader

/-!
# Search for a window

A search decides whether positions of all terms lie in one window of a given distance. It keeps one
reader for each different term, in a queue whose first reader is the furthest behind, and the
rightmost position that any reader holds. When the first reader is close enough to the rightmost
position, the window is found. When even its last position is too far behind, there is no window.
Otherwise the first reader moves a step and goes back into the queue; when it is spent, there is
no window either.
-/

namespace TermWindow

/-! ### The queue -/

/-- A reader in the queue, with the first position of its block and the number of readers that
came in before it. -/
structure Entry where
  key : Int
  order : Nat
  reader : Reader

namespace Entry

/-- Whether `a` is taken before `b`: by the key, and by the order of coming in where keys agree. -/
def before (a b : Entry) : Bool := a.key < b.key || (a.key = b.key && a.order ≤ b.order)

def enqueue (e : Entry) : List Entry → List Entry
  | [] => [e]
  | f :: rest => if e.before f then e :: f :: rest else f :: enqueue e rest

theorem perm_enqueue (e : Entry) (queue : List Entry) : (enqueue e queue).Perm (e :: queue) := by
  induction queue with
  | nil => exact List.Perm.refl _
  | cons f rest ih =>
    unfold enqueue
    split
    · exact List.Perm.refl _
    · exact (ih.cons f).trans (List.Perm.swap e f rest)

def work : List Entry → Nat
  | [] => 0
  | e :: rest => e.reader.remaining + work rest

theorem work_enqueue (e : Entry) (queue : List Entry) :
    work (enqueue e queue) = e.reader.remaining + work queue := by
  induction queue with
  | nil => rfl
  | cons f rest ih =>
    unfold enqueue
    split
    · rfl
    · rw [work, ih, work]
      exact Nat.add_left_comm _ _ _

end Entry

/-! ### The state of a search -/

/-- A search: its distance, the rightmost position held so far, the queue, the reader at which it
has halted, and its answer once that is known. -/
structure Search where
  distance : Nat
  rightmost : Int
  queue : List Entry
  halted : Option Entry
  answer : Option Bool

namespace Search

/-- A search without readers. Every position that is not negative lies to the right of it. -/
def idle (distance : Nat) : Search := ⟨distance, -1, [], none, none⟩

def holds (s : Search) (term : String) : Bool := s.queue.any (·.reader.term = term)

def enter (s : Search) (reader : Reader) (low high : Int) : Search :=
  { s with
    queue := Entry.enqueue ⟨low, s.queue.length, reader⟩ s.queue
    rightmost := max s.rightmost high }

/-- The search given up while its readers were made. The rightmost position stays. -/
def abandon (s : Search) : Search := { s with queue := [] }

/-! ### Start -/

/-- Reads the slots of the terms from the left. A missing slot and a slot with too few positions
give the search up at once. Only the first slot of a term counts. -/
def fill (needed : String → Nat) (s : Search) : List (String × Value) → Except Fault Search
  | [] => .ok s
  | (term, slot) :: rest =>
    if slot.isMissing then .ok s.abandon
    else if s.holds term then fill needed s rest
    else do
      let reader ← Reader.ofValue term (some (needed term)) slot
      match reader.low?, reader.high? with
      | some low, some high => fill needed (s.enter reader low high) rest
      | _, _ => return s.abandon

/-- A search for the terms with the positions in their slots. With fewer slots than terms there is
nothing to find. -/
def start (distance : Nat) (terms : List String) (slots : List Value) (shared : Bool) :
    Except Fault Search :=
  if slots.length < terms.length then .ok (idle distance)
  else if terms.length < slots.length then .error (.surplusLists terms.length slots.length)
  else fill (Demand.needed shared terms) (idle distance) (terms.zip slots)

/-- A search whose distance and slots are given by values. The distance is looked at first. -/
def ofValues (distance : Value) (terms : List String) (slots : Value) (shared : Bool) :
    Except Fault Search := do
  start (← Distance.ofValue distance) terms (← slots.elements) shared

/-! ### Steps -/

/-- Whether `distance` is less than what lies between `rightmost` and the last position of a
reader. -/
def outOfReach (distance : Nat) (rightmost : Int) (r : Reader) : Bool :=
  match r.last? with
  | some last => (distance : Int) < rightmost - last
  | none => false

/-- The search after the reader `e`, taken from the front of the queue, has moved a step. -/
def move (s : Search) (e : Entry) (rest : List Entry) : Search :=
  match e.reader.advance.low?, e.reader.advance.high? with
  | some low, some high =>
    { s with
      queue := Entry.enqueue ⟨low, e.order, e.reader.advance⟩ rest
      rightmost := max s.rightmost high }
  | _, _ =>
    { s with
      queue := rest
      halted := some { e with reader := e.reader.advance }
      answer := some false }

/-- The search after the first reader of the queue is looked at. How many readers the queue has is
not compared with the number of different terms: the queue of a search that was started is empty or
has one entry for each different term. -/
def step (s : Search) : Search :=
  match s.queue with
  | [] => { s with answer := some false }
  | e :: rest =>
    if s.rightmost - e.key ≤ s.distance then
      { s with queue := rest, halted := some e, answer := some true }
    else if outOfReach s.distance s.rightmost e.reader then
      { s with queue := rest, halted := some e, answer := some false }
    else s.move e rest

def work (s : Search) : Nat := Entry.work s.queue

theorem answer_move_or_work_lt (s : Search) (e : Entry) (rest : List Entry) :
    (s.move e rest).answer.isSome = true ∨ (s.move e rest).work < Entry.work (e :: rest) := by
  unfold move
  split
  · rename_i low high hlow hhigh
    right
    have hl : e.reader.advance.spent = false := by
      cases h : e.reader.advance.spent with
      | false => rfl
      | true => simp [Reader.low?, h] at hlow
    have hr := Reader.remaining_advance_lt (Reader.spent_of_advance hl)
    rw [work, Entry.work_enqueue, Entry.work]
    exact Nat.add_lt_add_right hr _
  · exact .inl rfl

/-- A step answers, or it leaves less work. -/
theorem answer_step_or_work_lt (s : Search) :
    s.step.answer.isSome = true ∨ s.step.work < s.work := by
  unfold step
  split
  · exact .inl rfl
  · rename_i e rest hq
    split
    · exact .inl rfl
    · split
      · exact .inl rfl
      · rw [work, work, hq]
        exact answer_move_or_work_lt s e rest

/-- The search taken to its answer. A search that has answered stays as it is. -/
def settle (s : Search) : Search :=
  if s.answer.isSome then s
  else
    let next := s.step
    if _h : next.answer.isSome then next else settle next
termination_by s.work
decreasing_by exact (answer_step_or_work_lt s).resolve_left _h

def found (s : Search) : Bool := s.settle.answer = some true

/-! ### What a search shows -/

/-- All readers of a search in the order of coming in, also the one at which it has halted. -/
def readers (s : Search) : List Reader :=
  ((s.halted.toList ++ s.queue).mergeSort fun a b => a.order ≤ b.order).map (·.reader)

def describe (s : Search) : String :=
  let queue := Reader.sortOn (·.reader) s.queue
  s!"ProximitySweep(distance={s.distance}, global_max={s.rightmost}, " ++
    s!"queue={Text.bracketed (queue.map (·.reader.describe))})"

end Search

end TermWindow
