import Mathlib.Data.List.Perm.Basic
import Mathlib.Logic.Relation
import MarkupMachine.Host
import MarkupMachine.Proofs.Scheduler.Outbox

/-! The loop of a host, taken apart: one wait of an outbox after the other, and one report after the
other of timers that are heard from in any order. At each point the timers in flight and the waits
still to be served are the waits that coroutines stand for. -/

namespace MarkupMachine.Host

open Scheduler (Orderly)
open Session (Balanced waitsOf)

variable {σ : Type} {bridge : Bridge σ} {h : Host σ}

/-- Where the loop of a host stands: at its beginning, in the middle of an outbox, before the report
of a timer, which it waits for, or after some, and at its end. -/
inductive Phase (σ : Type) where
  | turning (h : Host σ)
  | serving (outbox : List (Nat × Wait)) (h : Host σ)
  | listening (h : Host σ)
  | draining (h : Host σ)
  | returned (h : Host σ)

def Phase.host : Phase σ → Host σ
  | .turning h => h
  | .serving _ h => h
  | .listening h => h
  | .draining h => h
  | .returned h => h

def Phase.left : Phase σ → List (Nat × Wait)
  | .serving outbox _ => outbox
  | _ => []

/-- One move of the loop. Which timer reports first, and how many are heard from before the next
round, is left open. -/
inductive Moves (bridge : Bridge σ) : Phase σ → Phase σ → Prop
  | turn {h : Host σ} : Moves bridge (.turning h) (.serving h.turn.1 h.turn.2)
  | serve {h : Host σ} {wait outbox} :
    Moves bridge (.serving (wait :: outbox) h) (.serving outbox (h.serve bridge wait))
  | again {h : Host σ} : h.reap.scheduler.hasReady = true →
    Moves bridge (.serving [] h) (.turning h.reap)
  | finish {h : Host σ} : h.reap.scheduler.hasReady = false → h.inFlight = 0 →
    Moves bridge (.serving [] h) (.returned h.reap)
  | listen {h : Host σ} : h.reap.scheduler.hasReady = false → h.inFlight ≠ 0 →
    Moves bridge (.serving [] h) (.listening h.reap)
  | hear {h : Host σ} {t} : t ∈ h.timers → Moves bridge (.listening h) (.draining (h.receive t))
  | drain {h : Host σ} {t} : t ∈ h.timers → Moves bridge (.draining h) (.draining (h.receive t))
  | resume {h : Host σ} : Moves bridge (.draining h) (.turning h)

abbrev Reaches (bridge : Bridge σ) : Phase σ → Phase σ → Prop := Relation.ReflTransGen (Moves bridge)

theorem complete_eq (h : Host σ) (id : Nat) (c : Completion) :
    h.complete id c = { h with scheduler := h.scheduler.after (.deliver id c) } := by
  cases eq : h.scheduler.deliver id c <;> simp [complete, Scheduler.after, eq]

theorem serve_renderer (h : Host σ) (bridge : Bridge σ) (id : Nat) (request : Request) :
    h.serve bridge (id, .renderer request) = { h with
      renderer := (bridge.answer h.limit request h.renderer).2
      scheduler := h.scheduler.after
        (.deliver id (.ofAnswer (bridge.answer h.limit request h.renderer).1)) } :=
  complete_eq ..

theorem scheduler_receive (h : Host σ) (t : Timer) :
    (h.receive t).scheduler = h.scheduler.after (.deliver t.coroutine .timer) := by
  rw [receive, complete_eq]

theorem timers_receive (h : Host σ) (t : Timer) : (h.receive t).timers = h.timers.erase t := by
  rw [receive, complete_eq]

/-- What holds of a host that has the waits of an outbox still to serve. The books are those of a
session, in which the host has taken the waits of its timers and this outbox. -/
structure Tends (issued : List Nat) (returned : List Finished) (outbox : List (Nat × Wait))
    (h : Host σ) : Prop where
  orderly : Orderly issued (returned ++ h.finished) h.scheduler
  inFlight : h.inFlight = h.timers.length
  books : ∃ started : List (Nat × Wait), Balanced ⟨h.scheduler, started ++ outbox, []⟩ ∧
    (started.map (·.1)).Perm (h.timers.map (·.coroutine)) ∧
    ∀ entry ∈ started, ∃ d, entry.2 = .timer d

variable {issued : List Nat} {returned : List Finished} {outbox : List (Nat × Wait)}

theorem Tends.turn (tends : h.Tends issued returned []) :
    h.turn.2.Tends issued returned h.turn.1 where
  orderly := by
    have rested : Orderly issued (returned ++ h.finished) h.scheduler.runUntilIdle.2 :=
      Scheduler.runTurns_keeps (fun _ orderly => orderly.step) _ tends.orderly
    exact rested.silent .takeOutbox rfl rfl
  inFlight := tends.inFlight
  books := by
    obtain ⟨started, balanced, timers, kinds⟩ := tends.books
    rw [List.append_nil] at balanced
    have rested : Balanced ⟨h.scheduler.runUntilIdle.2, started, []⟩ :=
      Scheduler.runTurns_keeps (P := fun s => Balanced ⟨s, started, []⟩)
        (fun _ balanced => balanced.after (show Session.Allows _ .step from trivial)) _ balanced
    have taken := rested.after (show Session.Allows _ .takeOutbox from trivial)
    exact ⟨started, taken, timers, kinds⟩

theorem Tends.reap (tends : h.Tends issued returned []) : h.reap.Tends issued returned [] where
  orderly := by
    have next : Orderly (issued ++ []) ((returned ++ h.finished) ++ h.scheduler.reap.1) _ :=
      tends.orderly.after .reap
    rw [List.append_nil, List.append_assoc] at next
    exact next
  inFlight := tends.inFlight
  books := by
    obtain ⟨started, balanced, timers, kinds⟩ := tends.books
    have reaped := balanced.after (show Session.Allows _ .reap from trivial)
    exact ⟨started, reaped, timers, kinds⟩

/-- A completion that a host hands in comes to the coroutine that waits for it. -/
structure Arrives (s : Scheduler) (id : Nat) (w : Wait) (c : Completion) (co : Coroutine)
    (next : Scheduler) : Prop where
  stored : s.coroutine? id = some co
  waiting : co.state = .waiting
  awaited : co.awaited? = some w
  accepted : s.deliver id c = .ok next
  resumed : next.coroutine? id = some (co.resumeWith c)
  ready : (co.resumeWith c).state = .ready
  handed : (co.resumeWith c).resume = some c
  others : ∀ other, other ≠ id → next.coroutine? other = s.coroutine? other

variable {s : Scheduler} {id : Nat} {w : Wait} {taken : List (Nat × Wait)}

theorem exists_arrives (balanced : Balanced ⟨s, taken, []⟩) (held : (id, w) ∈ taken)
    (c : Completion) : ∃ co next, Arrives s id w c co next := by
  obtain ⟨co, _, next, stored, waiting, _, _, _, accepted, resumed, ready, handed, _⟩ :=
    balanced.deliver List.not_mem_nil held c
  obtain ⟨_, _, owed⟩ := balanced.held List.not_mem_nil held
  obtain ⟨_, found, _, awaited⟩ :=
    Scheduler.exists_of_mem_owed (w := w) (owed ▸ List.mem_singleton_self w)
  cases stored.symm.trans found
  refine ⟨co, next, stored, waiting, awaited, accepted, resumed, ready, handed, fun other apart => ?_⟩
  have own := balanced.sound.own stored
  have once := Scheduler.waits_of_waiting balanced.sound stored waiting
  rw [Scheduler.deliver_eq stored waiting once] at accepted
  cases accepted
  exact (Scheduler.coroutine?_put s (co.resumeWith c) other).trans (if_neg (own ▸ apart))

theorem Arrives.after_eq {c : Completion} {co : Coroutine} {next : Scheduler}
    (arrives : Arrives s id w c co next) : s.after (.deliver id c) = next := by
  simp only [Scheduler.after, arrives.accepted]

theorem exists_started {started : List (Nat × Wait)} {t : Timer}
    (timers : (started.map (·.1)).Perm (h.timers.map (·.coroutine)))
    (kinds : ∀ entry ∈ started, ∃ d, entry.2 = .timer d) (mem : t ∈ h.timers) :
    ∃ d, (t.coroutine, Wait.timer d) ∈ started := by
  have listed := timers.symm.subset (List.mem_map_of_mem (f := (·.coroutine)) mem)
  obtain ⟨⟨id, w⟩, mem, rfl⟩ := List.mem_map.mp listed
  obtain ⟨d, rfl⟩ := kinds _ mem
  exact ⟨d, mem⟩

theorem Tends.arrives (tends : h.Tends issued returned ((id, w) :: outbox)) (c : Completion) :
    ∃ co next, Arrives h.scheduler id w c co next := by
  obtain ⟨started, balanced, _, _⟩ := tends.books
  exact exists_arrives balanced (List.mem_append_right _ List.mem_cons_self) c

theorem Tends.reports (tends : h.Tends issued returned outbox) {t : Timer} (mem : t ∈ h.timers) :
    ∃ d co next, Arrives h.scheduler t.coroutine (.timer d) .timer co next := by
  obtain ⟨started, balanced, timers, kinds⟩ := tends.books
  obtain ⟨d, held⟩ := exists_started timers kinds mem
  exact ⟨d, exists_arrives balanced (List.mem_append_left _ held) .timer⟩

theorem eraseP_started {started : List (Nat × Wait)}
    (balanced : Balanced ⟨s, started ++ (id, w) :: outbox, []⟩) :
    (started ++ (id, w) :: outbox).eraseP (·.1 == id) = started ++ outbox := by
  obtain ⟨one, _, _⟩ :=
    balanced.held List.not_mem_nil (List.mem_append_right started List.mem_cons_self)
  have absent : ∀ entry ∈ started, ¬ (entry.1 == id) = true := by
    rintro ⟨other, v⟩ mem same
    obtain rfl : other = id := by simpa using same
    have first := List.length_pos_of_mem (Session.mem_waitsOf.mpr mem)
    have second := List.length_pos_of_mem
      (Session.mem_waitsOf.mpr (List.mem_cons_self (a := (other, w)) (l := outbox)))
    have all := congrArg List.length one
    rw [Session.waitsOf_append, List.length_append, List.length_singleton] at all
    omega
  rw [List.eraseP_append_right _ absent, List.eraseP_cons_of_pos (by simp)]

theorem Tends.serve (tends : h.Tends issued returned ((id, w) :: outbox)) (bridge : Bridge σ) :
    (h.serve bridge (id, w)).Tends issued returned outbox := by
  obtain ⟨started, balanced, timers, kinds⟩ := tends.books
  cases w with
  | timer after =>
    refine ⟨tends.orderly, ?_, started ++ [(id, .timer after)], ?_, ?_, fun entry mem => ?_⟩
    · simp [Host.serve, tends.inFlight]
    · rw [List.append_assoc]
      exact balanced
    · rw [List.map_append, Host.serve, List.map_append]
      exact timers.append_right _
    · rcases List.mem_append.mp mem with mem | mem
      · exact kinds entry mem
      · exact ⟨after, by rw [List.mem_singleton.mp mem]⟩
  | renderer request =>
    have held : Session.Allows ⟨h.scheduler, started ++ (id, .renderer request) :: outbox, []⟩
        (.deliver id (.ofAnswer (bridge.answer h.limit request h.renderer).1)) :=
      ⟨_, List.mem_append_right _ List.mem_cons_self⟩
    have served := balanced.after held
    have delivered := tends.orderly.silent
      (.deliver id (.ofAnswer (bridge.answer h.limit request h.renderer).1)) rfl rfl
    simp only [Session.after, eraseP_started balanced] at served
    rw [serve_renderer]
    exact ⟨delivered, tends.inFlight, started, served, timers, kinds⟩

theorem map_erase_perm {ts : List Timer} {t : Timer} (mem : t ∈ ts) :
    ((ts.erase t).map (·.coroutine)).Perm ((ts.map (·.coroutine)).erase t.coroutine) := by
  have split := ((List.perm_cons_erase mem).map (·.coroutine)).erase t.coroutine
  rw [List.map_cons, List.erase_cons_head] at split
  exact split.symm

theorem map_eraseP_eq (id : Nat) (entries : List (Nat × Wait)) :
    (entries.eraseP (·.1 == id)).map (·.1) = (entries.map (·.1)).erase id := by
  rw [List.erase_eq_eraseP', List.eraseP_map]
  rfl

theorem Tends.receive (tends : h.Tends issued returned []) {t : Timer} (mem : t ∈ h.timers) :
    (h.receive t).Tends issued returned [] := by
  obtain ⟨started, balanced, timers, kinds⟩ := tends.books
  obtain ⟨d, held⟩ := exists_started timers kinds mem
  rw [List.append_nil] at balanced
  have allowed : Session.Allows ⟨h.scheduler, started, []⟩ (.deliver t.coroutine .timer) := ⟨_, held⟩
  have heard := balanced.after allowed
  have delivered := tends.orderly.silent (.deliver t.coroutine .timer) rfl rfl
  rw [Host.receive, complete_eq]
  refine ⟨delivered, ?_, started.eraseP (·.1 == t.coroutine), ?_, ?_, ?_⟩
  · simp only [tends.inFlight]
    exact (List.length_erase_of_mem mem).symm
  · rw [List.append_nil]
    exact heard
  · rw [map_eraseP_eq]
    exact (timers.erase t.coroutine).trans (map_erase_perm mem).symm
  · exact fun entry mem => kinds entry (List.mem_of_mem_eraseP mem)

/-- Each coroutine that waits does so for one timer, or for one wait that is still to be served. -/
theorem Tends.count_eq (tends : h.Tends issued returned outbox) (id : Nat) :
    (h.timers.map (·.coroutine)).count id + (outbox.map (·.1)).count id +
      (h.scheduler.outbox.map (·.1)).count id =
    if (h.scheduler.coroutine? id).any (·.state == .waiting) then 1 else 0 := by
  obtain ⟨started, balanced, timers, _⟩ := tends.books
  have balance : waitsOf id (started ++ outbox ++ h.scheduler.outbox) = h.scheduler.owed id :=
    balanced.balance List.not_mem_nil
  have lengths := congrArg List.length balance
  rw [Scheduler.length_owed tends.orderly.sound, ← Scheduler.count_eq_length_waitsOf,
    List.map_append, List.map_append, List.count_append, List.count_append, timers.count_eq] at lengths
  exact lengths

theorem Tends.coroutines_eq_nil (tends : h.Tends issued returned [])
    (posted : h.scheduler.outbox = []) (quiet : h.reap.scheduler.hasReady = false)
    (none : h.inFlight = 0) : h.reap.scheduler.coroutines = [] := by
  have sound := tends.reap.orderly.sound
  have timers : h.timers = [] := List.length_eq_zero_iff.mp (tends.inFlight.symm.trans none)
  have nobody (id : Nat) (co : Coroutine) : h.reap.scheduler.coroutine? id ≠ some co := by
    intro stored
    cases state : co.state with
    | ready =>
      rw [tends.reap.orderly.tidy.hasReady stored state] at quiet
      cases quiet
    | running => exact sound.still stored state
    | waiting =>
      have count := tends.reap.count_eq id
      have nothing : h.reap.timers = [] ∧ h.reap.scheduler.outbox = [] := ⟨timers, posted⟩
      simp [nothing, stored, state] at count
    | terminated =>
      have alive := (Scheduler.coroutine?_reap tends.orderly.sound.ordered stored).2
      simp [Coroutine.isTerminated, state] at alive
  cases coroutines : h.reap.scheduler.coroutines with
  | nil => rfl
  | cons entry rest =>
    have mem : entry ∈ h.reap.scheduler.coroutines := coroutines ▸ List.mem_cons_self
    exact absurd (Table.get?_of_mem sound.ordered mem) (nobody entry.1 entry.2)

theorem outbox_serve (tends : h.Tends issued returned outbox) (bridge : Bridge σ)
    (wait : Nat × Wait) : (h.serve bridge wait).scheduler.outbox = h.scheduler.outbox := by
  obtain ⟨id, after | request⟩ := wait
  · rfl
  · rw [serve_renderer]
    exact Scheduler.outbox_deliver tends.orderly.sound ..

theorem Tends.receive_wakes (tends : h.Tends issued returned []) {t : Timer} (mem : t ∈ h.timers) :
    (h.receive t).scheduler.outbox = h.scheduler.outbox ∧
      (h.receive t).scheduler.hasReady = true := by
  obtain ⟨d, co, next, arrives⟩ := tends.reports mem
  have tidy := (tends.receive mem).orderly.tidy
  rw [scheduler_receive] at tidy ⊢
  refine ⟨Scheduler.outbox_deliver tends.orderly.sound .., ?_⟩
  exact tidy.hasReady (arrives.after_eq.symm ▸ arrives.resumed) arrives.ready

def Phase.Kept (issued : List Nat) (returned : List Finished) : Phase σ → Prop
  | .turning h => h.Tends issued returned []
  | .serving outbox h => h.Tends issued returned outbox ∧ h.scheduler.outbox = []
  | .listening h => h.Tends issued returned [] ∧ h.scheduler.outbox = [] ∧ h.inFlight ≠ 0
  | .draining h =>
    h.Tends issued returned [] ∧ h.scheduler.outbox = [] ∧ h.scheduler.hasReady = true
  | .returned h => h.Tends issued returned [] ∧ h.inFlight = 0 ∧ h.scheduler.coroutines = []

variable {p q : Phase σ}

theorem Phase.Kept.moves (kept : p.Kept issued returned) (moves : Moves bridge p q) :
    q.Kept issued returned := by
  cases moves with
  | turn => exact ⟨kept.turn, rfl⟩
  | serve => exact ⟨kept.1.serve bridge, (outbox_serve kept.1 bridge _).trans kept.2⟩
  | again => exact kept.1.reap
  | finish quiet none => exact ⟨kept.1.reap, none, kept.1.coroutines_eq_nil kept.2 quiet none⟩
  | listen _ some => exact ⟨kept.1.reap, kept.2, some⟩
  | hear mem | drain mem =>
    have wakes := kept.1.receive_wakes mem
    exact ⟨kept.1.receive mem, wakes.1.trans kept.2.1, wakes.2⟩
  | resume => exact kept.1

theorem Phase.Kept.reaches (kept : p.Kept issued returned) (reaches : Reaches bridge p q) :
    q.Kept issued returned := by
  induction reaches with
  | refl => exact kept
  | tail _ moves ih => exact ih.moves moves

theorem Phase.Kept.goes_on (kept : p.Kept issued returned) (bridge : Bridge σ) :
    (∃ h, p = .returned h) ∨ ∃ q, Moves bridge p q := by
  cases p with
  | turning h => exact .inr ⟨_, .turn⟩
  | serving outbox h =>
    cases outbox with
    | cons wait outbox => exact .inr ⟨_, .serve⟩
    | nil =>
      cases ready : h.reap.scheduler.hasReady with
      | true => exact .inr ⟨_, .again ready⟩
      | false =>
        by_cases none : h.inFlight = 0
        · exact .inr ⟨_, .finish ready none⟩
        · exact .inr ⟨_, .listen ready none⟩
  | listening h =>
    obtain ⟨tends, _, some⟩ := kept
    rw [tends.inFlight] at some
    obtain ⟨t, mem⟩ := List.exists_mem_of_length_pos (Nat.pos_of_ne_zero some)
    exact .inr ⟨_, .hear mem⟩
  | draining h => exact .inr ⟨_, .resume⟩
  | returned h => exact .inl ⟨h, rfl⟩

theorem Phase.Kept.tends (kept : p.Kept issued returned) : p.host.Tends issued returned p.left := by
  cases p with
  | turning => exact kept
  | serving | listening | draining | returned => exact kept.1

end MarkupMachine.Host
