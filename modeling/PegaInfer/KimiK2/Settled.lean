import PegaInfer.KimiK2.Scheduler

namespace PegaInfer.KimiK2

open Frontend Kvbm Lib

variable {H : Type}

/-- How often a sink has been told its end. -/
def Wave.terminals (w : Wave H) (tokenTx : Nat) : Nat :=
  w.events.countP fun sent => sent.1 = tokenTx ∧ sent.2.isTerminal

/-- The sink never loses its listener. -/
def World.Listens (world : World) (tokenTx : Nat) : Prop := ∀ n, world.listens n tokenTx = true

/-- Of the requests in `live` those in `live'` are left, the others were told their end once,
unless nobody listened. -/
structure Settles (world : World) (w : Wave H) (live : List Nat) (w' : Wave H) (live' : List Nat) : Prop where
  most : ∀ tokenTx, w'.terminals tokenTx + live'.count tokenTx ≤ w.terminals tokenTx + live.count tokenTx
  heard : ∀ tokenTx, world.Listens tokenTx →
    w'.terminals tokenTx + live'.count tokenTx = w.terminals tokenTx + live.count tokenTx

namespace Settles

variable {world : World} {w w' w'' : Wave H} {live live' live'' kept : List Nat}

theorem of_events (same : w'.events = w.events) (live : List Nat) : Settles world w live w' live := by
  have equal : ∀ tokenTx, w'.terminals tokenTx = w.terminals tokenTx :=
    fun tokenTx => by rw [Wave.terminals, same, Wave.terminals]
  exact ⟨fun tokenTx => by rw [equal], fun tokenTx _ => by rw [equal]⟩

theorem refl (w : Wave H) (live : List Nat) : Settles world w live w live := of_events rfl live

theorem trans (first : Settles world w live w' live') (second : Settles world w' live' w'' live'') :
    Settles world w live w'' live'' :=
  ⟨fun tokenTx => (second.most tokenTx).trans (first.most tokenTx),
    fun tokenTx listens => (second.heard tokenTx listens).trans (first.heard tokenTx listens)⟩

theorem frame (settles : Settles world w live w' live') (kept : List Nat) :
    Settles world w (live ++ kept) w' (live' ++ kept) := by
  constructor
  · intro tokenTx
    have most := settles.most tokenTx
    rw [List.count_append, List.count_append]
    omega
  · intro tokenTx listens
    have heard := settles.heard tokenTx listens
    rw [List.count_append, List.count_append]
    omega

theorem perm (settles : Settles world w live w' live') {more more' : List Nat}
    (before : live.Perm more) (after : live'.Perm more') :
    Settles world w more w' more' := by
  constructor
  · intro tokenTx
    rw [← before.count_eq, ← after.count_eq]
    exact settles.most tokenTx
  · intro tokenTx listens
    rw [← before.count_eq, ← after.count_eq]
    exact settles.heard tokenTx listens

theorem frame_left (settles : Settles world w live w' live') (kept : List Nat) :
    Settles world w (kept ++ live) w' (kept ++ live') :=
  (settles.frame kept).perm List.perm_append_comm List.perm_append_comm

/-- What happens to the pool or to the executor tells nobody anything. -/
theorem release [DecidableEq H] (settles : Settles world w live w' live') (kv : SchedulableSequence H) :
    Settles world w live (w'.release kv) live' := ⟨settles.most, settles.heard⟩

theorem from_store {store : BlockStore H}
    (settles : Settles world { w with store := store } live w' live') : Settles world w live w' live' :=
  ⟨settles.most, settles.heard⟩

theorem from_call {calls : Nat} (settles : Settles world { w with calls := calls } live w' live') :
    Settles world w live w' live' :=
  ⟨settles.most, settles.heard⟩

/-- One after the other. -/
theorem append (first : Settles world w live w' live') {more more' : List Nat}
    (second : Settles world w' more w'' more') :
    Settles world w (live ++ more) w'' (live' ++ more') := (first.frame more).trans (second.frame_left live')

end Settles

namespace World

variable (world : World) (w : Wave H) (tokenTx : Nat) (event : TokenEvent)

@[simp] theorem send_store : (world.send w tokenTx event).1.store = w.store := by
  unfold send
  split <;> rfl

@[simp] theorem sendScheduled_store (req : GenerateRequest) : (world.sendScheduled w req).store =
    w.store := world.send_store w _ _

@[simp] theorem sendRejected_store (req : GenerateRequest) (message : String) :
    (world.sendRejected w req message).store = w.store := by
  rw [sendRejected, send_store, sendScheduled_store]

variable {world w tokenTx event}

theorem terminals_send (other : Nat) : (world.send w tokenTx event).1.terminals other =
    w.terminals other + if (world.send w tokenTx event).2 = true ∧ tokenTx = other ∧
      event.isTerminal = true then 1 else 0 := by
  unfold send Wave.terminals
  split
  · rw [List.countP_append, List.countP_singleton]
    simp only [decide_eq_true_eq, true_and]
  · simp

theorem send_heard (listens : world.Listens tokenTx) : (world.send w tokenTx event).2 = true := by
  unfold send
  rw [if_pos (listens w.sends)]

theorem send_other (streamed : event.isTerminal = false) (live : List Nat) :
    Settles world w live (world.send w tokenTx event).1 live := by
  constructor
  · intro other
    rw [terminals_send, streamed]
    simp
  · intro other _
    rw [terminals_send, streamed]
    simp

theorem send_terminal (terminal : event.isTerminal = true) :
    Settles world w [tokenTx] (world.send w tokenTx event).1 [] := by
  constructor
  · intro other
    rw [terminals_send, terminal, List.count_nil, List.count_singleton]
    split
    · next told => simp [told.2.1]
    · omega
  · intro other listens
    rw [terminals_send, terminal, List.count_nil, List.count_singleton]
    by_cases same : tokenTx = other
    · subst same
      simp [send_heard listens]
    · simp [same]

/-- A request nobody listens to may be dropped untold. -/
theorem send_unheard (streamed : event.isTerminal = false)
    (unheard : (world.send w tokenTx event).2 = false) :
    Settles world w [tokenTx] (world.send w tokenTx event).1 [] := by
  constructor
  · intro other
    rw [terminals_send, streamed]
    simp
  · intro other listens
    rw [terminals_send, streamed]
    by_cases same : tokenTx = other
    · subst same
      rw [send_heard listens] at unheard
      cases unheard
    · simp [same]

theorem sendScheduled_settles (req : GenerateRequest) (live : List Nat) :
    Settles world w live (world.sendScheduled w req) live :=
  send_other rfl live

theorem sendRejected_settles (req : GenerateRequest) (message : String) :
    Settles world w [req.tokenTx] (world.sendRejected w req message) [] :=
  (sendScheduled_settles req _).trans (send_terminal rfl)

theorem sendErrors_store (message : String) (reqs : List GenerateRequest) (w : Wave H) :
    (world.sendErrors w message reqs).store = w.store := by
  induction reqs generalizing w with
  | nil => rfl
  | cons req reqs ih => rw [sendErrors, ih, send_store]

theorem sendErrors_settles (message : String) (reqs : List GenerateRequest) (w : Wave H) :
    Settles world w (reqs.map GenerateRequest.tokenTx) (world.sendErrors w message reqs) [] := by
  induction reqs generalizing w with
  | nil => exact .refl w []
  | cons req reqs ih => exact (send_terminal rfl).append (ih _)

end World

end PegaInfer.KimiK2
