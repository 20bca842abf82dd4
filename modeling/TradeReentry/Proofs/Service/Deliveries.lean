import TradeReentry.Service

/-!
# Answers that are delivered once

A caller makes a service ready, starts and stops it, hands in contexts, collects answers and asks for direct ones, in
any order. An account of these calls says whether a context is taken (`Keeps.handIn_result`), and what was collected
with what still waits is what is owed: the direct answer to each context that was taken, in order
(`deliveries_exact`).
-/

namespace TradeReentry

/-! ## Desks -/

namespace Desk

variable (d : Desk)

theorem unlock_spec : d.unlock.1.isOpen = true ∧ d.unlock.1.waiting = d.waiting := by
  unfold unlock
  split
  · next hopen => exact ⟨hopen, rfl⟩
  · exact ⟨rfl, rfl⟩

theorem close_spec : d.close.1.isOpen = false ∧ d.close.1.waiting = d.waiting := by
  unfold close
  split
  · exact ⟨rfl, rfl⟩
  · next hclosed => exact ⟨Bool.of_not_eq_true hclosed, rfl⟩

/-- A direct answer leaves open what is open, and does not wait. -/
theorem answer_spec (disk : Disk) (clock : Processor.Readings) (context : Context) :
    (d.answer disk clock context).state.1.isOpen = d.isOpen ∧
      (d.answer disk clock context).state.1.waiting = d.waiting := by
  unfold answer
  split <;> exact ⟨rfl, rfl⟩

/-- While the desk is open, the direct answer to a context that is handed in waits behind the others. -/
theorem handIn_of_open (hopen : d.isOpen = true) (disk : Disk) (clock : Processor.Readings)
    (context : Context) :
    (d.handIn disk clock context).result = true ∧ (d.handIn disk clock context).state.1.isOpen = true ∧
      (d.handIn disk clock context).state.1.waiting = d.waiting ++ [(d.answer disk clock context).result] := by
  obtain ⟨hsame, hwaiting⟩ := answer_spec d disk clock context
  rw [handIn, if_pos hopen]
  refine ⟨rfl, hsame.trans hopen, ?_⟩
  dsimp only
  rw [hwaiting]

/-- The processor, the files and the log are then those of the direct answer. -/
theorem effect_handIn_of_open (hopen : d.isOpen = true) (disk : Disk) (clock : Processor.Readings)
    (context : Context) :
    (d.handIn disk clock context).state.1.processor? = (d.answer disk clock context).state.1.processor? ∧
      (d.handIn disk clock context).state.2 = (d.answer disk clock context).state.2 ∧
      (d.handIn disk clock context).log = (d.answer disk clock context).log := by
  rw [handIn, if_pos hopen]
  exact ⟨rfl, rfl, rfl⟩

end Desk

namespace Service

/-! ## Calls and their account -/

/-- A call of a service. It finds the files as they are then, whoever wrote them. -/
inductive Call where
  | prepare (disk : Disk) (now : Instant)
  | start
  | stop
  | handIn (disk : Disk) (clock : Processor.Readings) (context : Context)
  | collect
  | answer (disk : Disk) (clock : Processor.Readings) (context : Context)

/-- The service after a call. -/
def after (s : Service) : Call → Service
  | .prepare disk now => (s.prepare disk now).state.1
  | .start => s.start.1
  | .stop => s.stop.1
  | .handIn disk clock context => (s.handIn disk clock context).state.1
  | .collect => s.collect.2
  | .answer disk clock context => (s.answer disk clock context).state.1

/-- What a caller asked of a service and got from it. -/
structure Account where
  /-- Whether an attempt to make the service ready succeeded. -/
  isReady : Bool := false
  /-- Whether the service was started when it was ready, and was not stopped since. -/
  isRunning : Bool := false
  /-- The direct answer to each context that was taken, as it would have been then. -/
  owed : List Response := []
  /-- The answers that were collected. -/
  collected : List Response := []
deriving DecidableEq, Repr

/-- The account after a call. -/
def Account.enter (a : Account) (s : Service) : Call → Account
  | .prepare disk now => { a with isReady := a.isReady || (s.prepare disk now).result.isOk }
  | .start => { a with isRunning := a.isRunning || a.isReady }
  | .stop => { a with isRunning := false }
  | .handIn disk clock context =>
    if (s.handIn disk clock context).result then
      { a with owed := a.owed ++ [(s.answer disk clock context).result] }
    else a
  | .collect => { a with collected := a.collected ++ s.collect.1 }
  | .answer _ _ _ => a

/-- A service and the account of its calls, after further calls. -/
def run (state : Service × Account) (calls : List Call) : Service × Account :=
  calls.foldl (fun (s, a) call => (s.after call, a.enter s call)) state

/-! ## What the account says of the service -/

/-- How a service stands to the account of its calls. -/
inductive Keeps : Service → Account → Prop
  /-- No attempt to make it ready succeeded. A failed one may have left a desk, but nothing waits there. -/
  | unready (settings : Settings) (desk? : Option Desk) (hwaiting : ∀ desk, desk? = some desk → desk.waiting = []) :
    Keeps { settings, desk? } {}
  /-- It is ready, and its desk is open while it is running. What waits there is owed and not collected. -/
  | ready (settings : Settings) (desk : Desk) (collected : List Response) :
    Keeps { settings, desk? := some desk, isReady := true, isStarted := desk.isOpen }
      { isReady := true, isRunning := desk.isOpen, owed := collected ++ desk.waiting, collected }

/-- Components that are made ready leave the desk as it is. -/
theorem prepareDesk_desk (d : Desk) (disk : Disk) (now : Instant) :
    (prepareDesk d disk now).state.1.isOpen = d.isOpen ∧
      (prepareDesk d disk now).state.1.waiting = d.waiting := by
  unfold prepareDesk
  split
  · exact ⟨rfl, rfl⟩
  · dsimp only
    split
    · exact ⟨rfl, rfl⟩
    · exact ⟨rfl, rfl⟩
    · split <;> exact ⟨rfl, rfl⟩

namespace Keeps

variable {s : Service} {a : Account}

theorem prepare (h : Keeps s a) (disk : Disk) (now : Instant) :
    Keeps (s.after (.prepare disk now)) (a.enter s (.prepare disk now)) := by
  cases h with
  | ready settings desk collected => exact .ready settings desk collected
  | unready settings desk? hwaiting =>
    unfold after Account.enter Service.prepare
    dsimp only
    rw [if_neg Bool.false_ne_true]
    split
    · exact .unready settings desk? hwaiting
    · split
      · exact .unready settings desk? hwaiting
      · next vocabulary log _ =>
        obtain ⟨hopen, hnone⟩ := prepareDesk_desk (build settings vocabulary) disk now
        split
        · exact .unready settings (some _) fun _ hdesk => Option.some.inj hdesk ▸ hnone
        · have hready := Keeps.ready settings (prepareDesk (build settings vocabulary) disk now).state.1 []
          rw [hopen, hnone] at hready
          exact hready

theorem start (h : Keeps s a) : Keeps (s.after .start) (a.enter s .start) := by
  cases h with
  | unready settings desk? hwaiting =>
    cases desk? with
    | none => exact .unready settings none hwaiting
    | some desk => exact .unready settings (some desk) hwaiting
  | ready settings desk collected =>
    obtain ⟨hopen, hwaiting⟩ := desk.unlock_spec
    have hready := Keeps.ready settings desk.unlock.1 collected
    unfold after Account.enter Service.start
    cases hrunning : desk.isOpen with
    | true =>
      have hsame : desk.unlock.1 = desk := by rw [Desk.unlock, if_pos hrunning]
      rw [hsame, hrunning] at hready
      exact hready
    | false =>
      rw [hopen, hwaiting] at hready
      exact hready

theorem stop (h : Keeps s a) : Keeps (s.after .stop) (a.enter s .stop) := by
  cases h with
  | unready settings desk? hwaiting =>
    cases desk? with
    | none => exact .unready settings none hwaiting
    | some desk => exact .unready settings (some desk) hwaiting
  | ready settings desk collected =>
    obtain ⟨hclosed, hwaiting⟩ := desk.close_spec
    have hready := Keeps.ready settings desk.close.1 collected
    unfold after Account.enter Service.stop
    cases hrunning : desk.isOpen with
    | true =>
      rw [hclosed, hwaiting] at hready
      exact hready
    | false =>
      have hsame : desk.close.1 = desk := by rw [Desk.close, hrunning, if_neg Bool.false_ne_true]
      rw [hsame, hrunning] at hready
      exact hready

/-- A context is taken exactly while the service is running. -/
theorem handIn_result (h : Keeps s a) (disk : Disk) (clock : Processor.Readings) (context : Context) :
    (s.handIn disk clock context).result = a.isRunning := by
  cases h with
  | unready settings desk? hwaiting => cases desk? <;> rfl
  | ready settings desk collected =>
    unfold Service.handIn
    dsimp only
    split
    · next hopen => exact (desk.handIn_of_open hopen disk clock context).1.trans hopen.symm
    · next hclosed => exact (Bool.of_not_eq_true hclosed).symm

/-- A context that is refused leaves the service and the files as they are, and nothing is logged. -/
theorem handIn_refused (h : Keeps s a) {disk : Disk} {clock : Processor.Readings} {context : Context}
    (hrefused : (s.handIn disk clock context).result = false) :
    s.handIn disk clock context = { result := false, state := (s, disk) } := by
  rw [h.handIn_result] at hrefused
  cases h with
  | unready settings desk? hwaiting => cases desk? <;> rfl
  | ready settings desk collected =>
    unfold Service.handIn
    dsimp only at hrefused ⊢
    rw [hrefused]
    rfl

/-- A context that is taken leaves the processor, the files and the log as its direct answer does. -/
theorem handIn_taken (h : Keeps s a) {disk : Disk} {clock : Processor.Readings} {context : Context}
    (htaken : (s.handIn disk clock context).result = true) :
    (s.handIn disk clock context).state.1.processor? = (s.answer disk clock context).state.1.processor? ∧
      (s.handIn disk clock context).state.2 = (s.answer disk clock context).state.2 ∧
      (s.handIn disk clock context).log = (s.answer disk clock context).log := by
  rw [h.handIn_result] at htaken
  cases h with
  | unready settings desk? hwaiting => cases htaken
  | ready settings desk collected =>
    have hopen : desk.isOpen = true := htaken
    unfold Service.handIn Service.answer Service.processor?
    dsimp only
    rw [hopen]
    exact desk.effect_handIn_of_open hopen disk clock context

theorem handIn (h : Keeps s a) (disk : Disk) (clock : Processor.Readings) (context : Context) :
    Keeps (s.after (.handIn disk clock context)) (a.enter s (.handIn disk clock context)) := by
  cases htaken : (s.handIn disk clock context).result with
  | false =>
    rw [after, Account.enter, h.handIn_refused htaken, if_neg Bool.false_ne_true]
    exact h
  | true =>
    rw [after, Account.enter, htaken, if_pos rfl]
    rw [h.handIn_result] at htaken
    cases h with
    | unready settings desk? hwaiting => cases htaken
    | ready settings desk collected =>
      have hopen : desk.isOpen = true := htaken
      obtain ⟨-, hstill, hwaiting⟩ := desk.handIn_of_open hopen disk clock context
      have hready := Keeps.ready settings (desk.handIn disk clock context).state.1 collected
      rw [hstill, hwaiting, ← List.append_assoc] at hready
      unfold Service.handIn Service.answer
      dsimp only
      rw [hopen]
      exact hready

theorem collect (h : Keeps s a) : Keeps (s.after .collect) (a.enter s .collect) := by
  cases h with
  | unready settings desk? hwaiting =>
    cases desk? with
    | none => exact .unready settings none hwaiting
    | some desk =>
      have hnone := Keeps.unready settings (some desk.collect.2) fun _ hdesk => Option.some.inj hdesk ▸ rfl
      have hcollected : desk.collect.1 = [] := hwaiting desk rfl
      unfold after Account.enter Service.collect
      dsimp only
      rw [hcollected]
      exact hnone
  | ready settings desk collected =>
    have hready := Keeps.ready settings desk.collect.2 (collected ++ desk.waiting)
    have hnone : desk.collect.2.waiting = [] := rfl
    rw [hnone, List.append_nil] at hready
    exact hready

theorem answer (h : Keeps s a) (disk : Disk) (clock : Processor.Readings) (context : Context) :
    Keeps (s.after (.answer disk clock context)) (a.enter s (.answer disk clock context)) := by
  cases h with
  | unready settings desk? hwaiting =>
    cases desk? with
    | none => exact .unready settings none hwaiting
    | some desk => exact .unready settings (some desk) hwaiting
  | ready settings desk collected =>
    obtain ⟨hopen, hwaiting⟩ := desk.answer_spec disk clock context
    have hready := Keeps.ready settings (desk.answer disk clock context).state.1 collected
    rw [hopen, hwaiting] at hready
    exact hready

/-- Every call keeps the account. -/
theorem after (h : Keeps s a) (call : Call) : Keeps (s.after call) (a.enter s call) := by
  cases call with
  | prepare disk now => exact h.prepare disk now
  | start => exact h.start
  | stop => exact h.stop
  | handIn disk clock context => exact h.handIn disk clock context
  | collect => exact h.collect
  | answer disk clock context => exact h.answer disk clock context

/-- So do calls one after the other. -/
theorem run {state : Service × Account} (h : Keeps state.1 state.2) (calls : List Call) :
    Keeps (Service.run state calls).1 (Service.run state calls).2 := by
  induction calls generalizing state with
  | nil => exact h
  | cons call calls ih => exact ih (h.after call)

/-- What was collected with what waits is what is owed. -/
theorem balance (h : Keeps s a) : a.collected ++ s.collect.1 = a.owed := by
  cases h with
  | unready settings desk? hwaiting =>
    cases desk? with
    | none => rfl
    | some desk => exact hwaiting desk rfl
  | ready settings desk collected => rfl

theorem ready_of_running (h : Keeps s a) (hrunning : a.isRunning = true) : a.isReady = true := by
  cases h with
  | unready settings desk? hwaiting => exact hrunning
  | ready settings desk collected => rfl

end Keeps

/-! ## What waits -/

theorem collect_stop (s : Service) : s.stop.1.collect.1 = s.collect.1 := by
  unfold stop
  split
  · next desk hdesk =>
    split
    · rw [collect, collect, hdesk]
      exact desk.close_spec.2
    · rfl
  · rfl

theorem collect_start (s : Service) : s.start.1.collect.1 = s.collect.1 := by
  unfold start
  split
  · next desk hdesk =>
    split
    · rw [collect, collect, hdesk]
      exact desk.unlock_spec.2
    · rfl
  · rfl

/-- Only collecting adds to what was collected, and what is owed is only added to. -/
theorem Account.enter_spec (a : Account) (s : Service) {call : Call} (h : call ≠ .collect) :
    (a.enter s call).collected = a.collected ∧ a.owed <+: (a.enter s call).owed := by
  cases call with
  | collect => exact absurd rfl h
  | handIn disk clock context =>
    rw [Account.enter]
    split
    · exact ⟨rfl, List.prefix_append _ _⟩
    · exact ⟨rfl, List.prefix_rfl⟩
  | prepare disk now => exact ⟨rfl, List.prefix_rfl⟩
  | start => exact ⟨rfl, List.prefix_rfl⟩
  | stop => exact ⟨rfl, List.prefix_rfl⟩
  | answer disk clock context => exact ⟨rfl, List.prefix_rfl⟩

theorem run_spec {state : Service × Account} {calls : List Call} (h : .collect ∉ calls) :
    (run state calls).2.collected = state.2.collected ∧ state.2.owed <+: (run state calls).2.owed := by
  induction calls generalizing state with
  | nil => exact ⟨rfl, List.prefix_rfl⟩
  | cons call calls ih =>
    obtain ⟨hne, hrest⟩ := List.ne_and_not_mem_of_not_mem_cons h
    obtain ⟨hcollected, howed⟩ := state.2.enter_spec state.1 (Ne.symm hne)
    obtain ⟨hcollected', howed'⟩ := @ih (state.1.after call, state.2.enter state.1 call) hrest
    exact ⟨hcollected'.trans hcollected, howed.trans howed'⟩

/-- No call but collecting takes away what waits. -/
theorem Keeps.waiting_prefix {s : Service} {a : Account} (h : Keeps s a) {more : List Call}
    (hmore : .collect ∉ more) : s.collect.1 <+: (Service.run (s, a) more).1.collect.1 := by
  have hbalance := h.balance
  have hbalance' := (@Keeps.run (s, a) h more).balance
  obtain ⟨hcollected, howed⟩ := @run_spec (s, a) more hmore
  rw [← hbalance, ← hbalance', hcollected] at howed
  exact (List.prefix_append_right_inj _).1 howed

/-- A service takes a context exactly if it is ready and running. What was collected from it, with what still waits,
is the row of the direct answers to the contexts that it took, as they would have been then. What waits outlasts a
stop and a start, and all that is called in between but collecting. A context that is refused changes nothing, and
one that is taken leaves the processor and the files as its direct answer does. -/
theorem deliveries_exact (settings : Settings) (calls : List Call) :
    let s := (run ({ settings }, {}) calls).1
    let a := (run ({ settings }, {}) calls).2
    (∀ disk clock context,
      (s.handIn disk clock context).result = true ↔ a.isReady = true ∧ a.isRunning = true) ∧
    a.collected ++ s.collect.1 = a.owed ∧
    (s.stop.1.collect.1 = s.collect.1 ∧ s.stop.1.start.1.collect.1 = s.collect.1 ∧
      ∀ more, .collect ∉ more → s.collect.1 <+: (run (s, a) more).1.collect.1) ∧
    (∀ disk clock context, (s.handIn disk clock context).result = false →
      s.handIn disk clock context = { result := false, state := (s, disk) }) ∧
    ∀ disk clock context, (s.handIn disk clock context).result = true →
      (s.handIn disk clock context).state.1.processor? = (s.answer disk clock context).state.1.processor? ∧
      (s.handIn disk clock context).state.2 = (s.answer disk clock context).state.2 ∧
      (s.handIn disk clock context).log = (s.answer disk clock context).log := by
  intro s a
  have hkeeps : Keeps s a := @Keeps.run ({ settings }, {}) (.unready settings none (by simp)) calls
  refine ⟨?_, hkeeps.balance, ⟨collect_stop s, ?_, fun more => hkeeps.waiting_prefix⟩, ?_,
    fun _ _ _ => hkeeps.handIn_taken⟩
  · intro disk clock context
    rw [hkeeps.handIn_result]
    exact ⟨fun hrunning => ⟨hkeeps.ready_of_running hrunning, hrunning⟩, And.right⟩
  · exact (collect_start _).trans (collect_stop s)
  · intro disk clock context
    exact hkeeps.handIn_refused

/-- A service without a ledger is started too early and in time, takes a context and is stopped. -/
def sampleCalls : List Call :=
  [.start, .prepare .empty 0, .start,
    .handIn .empty (.constant 1768471200000)
      { tradeId := "T1", symbol := "EURUSD", lotSize := .ofDecimal 1 1, durationMinutes := .ofNat 10 },
    .stop]

/-- Its answer still waits and is collected after the next start, but it takes no further context. -/
theorem deliveries_exact_stopped :
    let settings : Settings := { ledger := { enabled := false } }
    let s := (run ({ settings }, {}) sampleCalls).1
    let a := (run ({ settings }, {}) sampleCalls).2
    s.collect.1 = a.owed ∧ a.owed.map (·.status) = [.processed] ∧
      s.collect.1 <+: (run (s, a) [.start]).1.collect.1 ∧
      s.handIn .empty (.constant 0) {} = { result := false, state := (s, .empty) } := by
  intro settings s a
  obtain ⟨htaken, hbalance, ⟨-, -, hwaits⟩, hrefused, -⟩ := deliveries_exact settings sampleCalls
  have haccount : a.isRunning = false ∧ a.collected = [] ∧ a.owed.map (·.status) = [.processed] := by
    decide +kernel
  refine ⟨?_, haccount.2.2, hwaits [.start] (by simp), ?_⟩
  · rw [← hbalance, haccount.2.1, List.nil_append]
  · apply hrefused
    apply Bool.eq_false_iff.2
    intro hresult
    have hrunning : a.isRunning = true := ((htaken _ _ _).1 hresult).2
    rw [haccount.1] at hrunning
    cases hrunning

end Service

end TradeReentry
