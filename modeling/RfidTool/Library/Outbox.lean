import RfidTool.Library.Transducer

/-!
# A sender with one slot

An `Outbox` holds the items of a message that are still to be sent: one that is prepared in
the slot, and the others in a queue. Items are prepared and sent by two parties that know
nothing of each other, so the two operations come in any order. `output_eq_take` counts for
every such order what is sent: the front of the contents, one item for each time that the slot
is taken behind a fill.
-/

/-- The items of a message that are still to be sent. -/
structure Outbox (α : Type*) where
  slot : Option α
  queue : List α

namespace Outbox

variable {α : Type*}

inductive Op where
  /-- Prepares the next item, if the slot is empty. -/
  | fill
  /-- Sends the item in the slot. -/
  | take
  deriving DecidableEq, Repr

/-- The items in the order in which they are sent. -/
def contents (o : Outbox α) : List α := o.slot.toList ++ o.queue

def fill (o : Outbox α) : Outbox α :=
  match o.slot with
  | none => ⟨o.queue.head?, o.queue.tail⟩
  | some _ => o

def sender : Transducer (Outbox α) Op α where
  step
    | o, .fill => (o.fill, none)
    | o, .take => ({ o with slot := none }, o.slot)

/-- How often the slot is taken behind a fill. -/
def rounds : Bool → List Op → ℕ
  | _, [] => 0
  | _, .fill :: ops => rounds true ops
  | true, .take :: ops => rounds false ops + 1
  | false, .take :: ops => rounds false ops

@[simp] theorem step_fill (o : Outbox α) : sender.step o .fill = (o.fill, none) := rfl

@[simp] theorem step_take (o : Outbox α) :
    sender.step o .take = ({ o with slot := none }, o.slot) := rfl

@[simp] theorem fill_of_some (a : α) (queue : List α) : fill ⟨some a, queue⟩ = ⟨some a, queue⟩ :=
  rfl

@[simp] theorem fill_cons (a : α) (queue : List α) : fill ⟨none, a :: queue⟩ = ⟨some a, queue⟩ :=
  rfl

@[simp] theorem fill_nil : fill (⟨none, []⟩ : Outbox α) = ⟨none, []⟩ := rfl

@[simp] theorem contents_fill (o : Outbox α) : o.fill.contents = o.contents := by
  obtain ⟨_ | a, _ | ⟨b, queue⟩⟩ := o <;> rfl

/-- Nothing is lost and nothing is sent twice. -/
theorem output_append_contents (o : Outbox α) (ops : List Op) :
    sender.output o ops ++ (sender.final o ops).contents = o.contents := by
  induction ops generalizing o with
  | nil => rfl
  | cons op ops ih =>
    rw [Transducer.output_cons, Transducer.final_cons, List.append_assoc, ih]
    cases op with
    | fill => rw [step_fill, contents_fill, Option.toList_none, List.nil_append]
    | take => rfl

theorem output_eq_nil {o : Outbox α} (h : o.contents = []) (ops : List Op) :
    sender.output o ops = [] := by
  have happend := output_append_contents o ops
  rw [h] at happend
  exact (List.append_eq_nil_iff.mp happend).1

/-- What is sent, for every order of the operations. -/
theorem output_eq_take (o : Outbox α) (ops : List Op) :
    sender.output o ops = o.contents.take (rounds o.slot.isSome ops) := by
  induction ops generalizing o with
  | nil => rw [Transducer.output_nil, rounds, List.take_zero]
  | cons op ops ih =>
    rw [Transducer.output_cons, ih]
    cases op with
    | fill =>
      rw [step_fill, contents_fill, rounds, Option.toList_none, List.nil_append]
      obtain ⟨_ | a, _ | ⟨b, queue⟩⟩ := o
      · rw [show contents (⟨none, []⟩ : Outbox α) = [] from rfl, List.take_nil, List.take_nil]
      all_goals rfl
    | take =>
      obtain ⟨_ | a, queue⟩ := o
      · rfl
      · rw [step_take, Option.isSome_some, rounds]
        rfl

end Outbox
