import Mathlib.Data.List.Induction
import Grpcgi.Pipeline.Consumer
import Grpcgi.Pipeline.Reader

/-!
# Lines of three tasks

A reader feeds a queue, a worker takes from it and puts into a second queue, and a
loop empties that one. Each task is deterministic, it waits while its queue is
empty, and the queues are all they share. The schedule then decides when the
output appears but not what it is: the results of two runs are stages of one
(`Tracks.precedes`), and a result with which one run has ended is reached in every
fair run (`Tracks.ends`).

The worker by itself, with everything there that it will ever find in its queue,
is the measure of all runs: `Worker.produced` is what it puts in some turns, and
`Line.sequential` what the tasks come to one after the other. No run gets beyond that,
and every fair run gets as far (`sequential_runs`).
-/

namespace Pipeline

variable {σ ι α β γ : Type*}

namespace Fifo

@[simp] theorem taken_putAll (q : Fifo α) (xs : List α) : (q.putAll xs).taken = q.taken := by
  induction xs generalizing q with
  | nil => rfl
  | cons x xs ih => exact ih (q.put x)

/-- What is left to take, if the queue is a beginning of `xs`. -/
theorem drop_taken {q r : Fifo α} {x : α} {xs : List α} (hget : q.get? = some (x, r))
    (hbegins : q.history <+: xs) : xs.drop q.taken = x :: xs.drop r.taken := by
  obtain ⟨hhistory, hconsumed⟩ := get?_some hget
  have htaken := get?_taken hget
  have hlt : q.taken < q.history.length := by
    have hle := r.taken_le
    rw [hhistory] at hle
    omega
  have hx : q.history[q.taken] = x := by
    simp only [get?, hlt, dif_pos, Option.some.injEq, Prod.mk.injEq] at hget
    exact hget.1
  have hlength := hbegins.length_le
  rw [List.drop_eq_getElem_cons (by omega), htaken, ← hx, hbegins.getElem hlt]

/-- A queue that has caught up with `xs` has nothing left to give. -/
theorem drop_taken_eq_nil {q : Fifo α} (hget : q.get? = none) : q.history.drop q.taken = [] := by
  have hconsumed := get?_eq_none.mp hget
  have hlength := congrArg List.length hconsumed
  rw [consumed, List.length_take] at hlength
  apply List.drop_eq_nil_of_le
  omega

end Fifo

/-! ## Workers -/

/-- What a worker does next. -/
inductive Act (σ α β : Type*) where
  | put (item : β) (next : σ)
  | take (resume : α → σ)
  | leave

/-- A task between two queues. It puts one more item when it leaves. -/
structure Worker (σ α β : Type*) where
  act : σ → Act σ α β
  exit : β

namespace Worker

/-- One turn with the items that are left to take. A worker that is over has no
state. -/
def turn (w : Worker σ α β) : Option σ × List α → List β × (Option σ × List α)
  | (none, xs) => ([], (none, xs))
  | (some x, xs) =>
    match w.act x with
    | .put item next => ([item], (some next, xs))
    | .take resume =>
      match xs with
      | [] => ([], (some x, []))
      | item :: xs => ([], (some (resume item), xs))
    | .leave => ([w.exit], (none, xs))

/-- The worker and the items left after some turns. -/
def after (w : Worker σ α β) (n : Nat) (start : Option σ × List α) : Option σ × List α :=
  (fun s => (w.turn s).2)^[n] start

/-- The items put in some turns. -/
def produced (w : Worker σ α β) (start : Option σ × List α) : Nat → List β
  | 0 => []
  | n + 1 => w.produced start n ++ (w.turn (w.after n start)).1

variable {w : Worker σ α β} {start : Option σ × List α}

theorem after_succ (n : Nat) : w.after (n + 1) start = (w.turn (w.after n start)).2 :=
  Function.iterate_succ_apply' _ n start

theorem produced_mono {n m : Nat} (h : n ≤ m) : w.produced start n <+: w.produced start m := by
  induction h with
  | refl => exact List.prefix_rfl
  | step _ ih => exact ih.trans (List.prefix_append _ _)

end Worker

/-! ## Results of a loop -/

/-- What the loop puts out for the items it takes, and how it ends, if it does. Its
body is told what was put out before. -/
def drain (body : List γ → β → Option γ × Option End) : List γ → List β → List γ × Option End
  | out, [] => (out, none)
  | out, x :: xs =>
    match (body out x).2 with
    | some e => (out ++ (body out x).1.toList, some e)
    | none => drain body (out ++ (body out x).1.toList) xs

/-- The second of two results is a later stage of the first. -/
structure Precedes (r s : List γ × Option End) : Prop where
  output : r.1 <+: s.1
  ended : r.2.isSome → s = r

namespace Precedes

variable {r s : List γ × Option End}

theorem rfl' : Precedes r r where
  output := List.prefix_rfl
  ended := fun _ => rfl

theorem trans {q : List γ × Option End} (h : Precedes r s) (h' : Precedes s q) :
    Precedes r q where
  output := h.output.trans h'.output
  ended := fun hr => by
    have hs := h.ended hr
    rw [h'.ended (hs ▸ hr), hs]

end Precedes

variable {body : List γ → β → Option γ × Option End}

theorem prefix_drain (out : List γ) (xs : List β) : out <+: (drain body out xs).1 := by
  induction xs generalizing out with
  | nil => exact List.prefix_rfl
  | cons x xs ih =>
      simp only [drain]
      split
      · exact List.prefix_append _ _
      · exact (List.prefix_append _ _).trans (ih _)

/-- The loop goes on where it was. -/
theorem drain_append {out : List γ} {xs : List β} (h : (drain body out xs).2 = none)
    (ys : List β) : drain body out (xs ++ ys) = drain body (drain body out xs).1 ys := by
  induction xs generalizing out with
  | nil => rfl
  | cons x xs ih =>
      simp only [drain, List.cons_append] at h ⊢
      split
      · rename_i e he
        rw [he] at h
        cases h
      · rename_i he
        rw [he] at h
        exact ih h

/-- A loop that has ended takes nothing more. -/
theorem drain_append_of_ended {out : List γ} {xs : List β} (h : (drain body out xs).2.isSome)
    (ys : List β) : drain body out (xs ++ ys) = drain body out xs := by
  induction xs generalizing out with
  | nil => cases h
  | cons x xs ih =>
      simp only [drain, List.cons_append] at h ⊢
      split
      · rfl
      · rename_i he
        rw [he] at h
        exact ih h

/-- A loop that ends does so at one of its items and says nothing about the rest. -/
theorem drain_ended {out : List γ} {xs : List β} {e : End} (h : (drain body out xs).2 = some e) :
    ∃ before x after, xs = before ++ x :: after ∧ (drain body out before).2 = none ∧
      (body (drain body out before).1 x).2 = some e ∧
      drain body out xs = ((drain body out before).1 ++
        (body (drain body out before).1 x).1.toList, some e) := by
  induction xs generalizing out with
  | nil => cases h
  | cons x xs ih =>
      simp only [drain] at h ⊢
      split
      · rename_i e' he
        rw [he] at h
        obtain rfl := Option.some.inj h
        exact ⟨[], x, xs, rfl, rfl, he, rfl⟩
      · rename_i he
        rw [he] at h
        obtain ⟨before, y, after, rfl, hbefore, hy, heq⟩ := ih h
        refine ⟨x :: before, y, after, rfl, ?_⟩
        simp only [drain, he]
        exact ⟨hbefore, hy, heq⟩

theorem precedes_drain {out : List γ} {xs ys : List β} (h : xs <+: ys) :
    Precedes (drain body out xs) (drain body out ys) := by
  obtain ⟨zs, rfl⟩ := h
  constructor
  · by_cases hended : (drain body out xs).2.isSome
    · have heq := congrArg Prod.fst (drain_append_of_ended hended zs)
      exact heq.symm ▸ List.prefix_rfl
    · rw [drain_append (Option.not_isSome_iff_eq_none.mp hended)]
      exact prefix_drain _ _
  · intro hended
    exact drain_append_of_ended hended zs

/-! ## The three tasks -/

/-- The programs of the tasks. -/
structure Tasks (σ ι α β γ : Type*) where
  reader : Reader ι α
  worker : Worker σ α β
  body : List γ → β → Option γ × Option End

structure Line (σ ι α β γ : Type*) where
  /-- the inputs that the reader has yet to read, `none` once it is over -/
  feed : Option (List ι)
  /-- where the worker is, `none` once it is over -/
  worker : Option σ
  inbox : Fifo α
  outbox : Consumer β γ

namespace Line

inductive Task where
  | reader
  | worker
  | consumer
  | cancelReader
  | cancelWorker
  deriving DecidableEq

variable {t : Tasks σ ι α β γ} {l : Line σ ι α β γ}

/-- What was put out, and how the loop ended. -/
def result (l : Line σ ι α β γ) : List γ × Option End := (l.outbox.output, l.outbox.ended)

/-- The worker leaves or is cancelled. -/
def leave (t : Tasks σ ι α β γ) (l : Line σ ι α β γ) : Line σ ι α β γ :=
  { l with worker := none, outbox := l.outbox.put t.worker.exit }

def runReader (t : Tasks σ ι α β γ) (l : Line σ ι α β γ) : Line σ ι α β γ :=
  { l with
    feed := (t.reader.turn l.feed).2
    inbox := l.inbox.putAll (t.reader.turn l.feed).1 }

def runWorker (t : Tasks σ ι α β γ) (l : Line σ ι α β γ) : Line σ ι α β γ :=
  match l.worker with
  | none => l
  | some x =>
    match t.worker.act x with
    | .put item next => { l with worker := some next, outbox := l.outbox.put item }
    | .take resume =>
      match l.inbox.get? with
      | none => l
      | some (item, inbox) => { l with worker := some (resume item), inbox }
    | .leave => l.leave t

/-- One turn. The end of the loop lets the other tasks be cancelled. -/
def step (t : Tasks σ ι α β γ) (l : Line σ ι α β γ) : Task → Line σ ι α β γ
  | .reader => l.runReader t
  | .worker => l.runWorker t
  | .consumer => { l with outbox := l.outbox.step (t.body l.outbox.output) }
  | .cancelReader => if l.outbox.ended.isSome then { l with feed := none } else l
  | .cancelWorker => if l.outbox.ended.isSome ∧ l.worker.isSome then l.leave t else l

def run (t : Tasks σ ι α β γ) (schedule : List Task) (l : Line σ ι α β γ) : Line σ ι α β γ :=
  schedule.foldl (step t) l

theorem run_append (t : Tasks σ ι α β γ) (a b : List Task) (l : Line σ ι α β γ) :
    l.run t (a ++ b) = (l.run t a).run t b := List.foldl_append

theorem count_cons (task : Task) (schedule : List Task) (a : Task) :
    (task :: schedule).count a = [task].count a + schedule.count a := by
  rw [← List.singleton_append, List.count_append]

/-- Only a turn of the loop can change the result. -/
theorem result_step {task : Task} (h : task ≠ .consumer) : (l.step t task).result = l.result := by
  cases task with
  | reader => rfl
  | worker =>
      simp only [step, runWorker]
      split
      · rfl
      · split
        · rfl
        · split <;> rfl
        · rfl
  | consumer => exact absurd rfl h
  | cancelReader =>
      simp only [step]
      split <;> rfl
  | cancelWorker =>
      simp only [step]
      split <;> rfl

/-- The result after a turn is the same or a later one. -/
theorem precedes_step (t : Tasks σ ι α β γ) (l : Line σ ι α β γ) (task : Task) :
    Precedes l.result (l.step t task).result := by
  by_cases htask : task = .consumer
  · subst htask
    obtain heq | ⟨hrunning, x, queue, -, heq⟩ :=
      Consumer.step_cases (t.body l.outbox.output) l.outbox
    · simp only [step, heq]
      exact .rfl'
    · simp only [step, heq]
      refine ⟨List.prefix_append _ _, fun hended => ?_⟩
      rw [result, hrunning] at hended
      cases hended
  · rw [result_step htask]
    exact .rfl'

/-- The worker leaves the reader and the items it has put alone. -/
theorem runWorker_keeps (t : Tasks σ ι α β γ) (l : Line σ ι α β γ) :
    (l.runWorker t).inbox.history = l.inbox.history ∧ (l.runWorker t).feed = l.feed ∧
      (l.runWorker t).outbox.queue.consumed = l.outbox.queue.consumed := by
  simp only [runWorker]
  split
  · exact ⟨rfl, rfl, rfl⟩
  · split
    · exact ⟨rfl, rfl, Fifo.consumed_put _ _⟩
    · split
      · exact ⟨rfl, rfl, rfl⟩
      · rename_i hget
        exact ⟨(Fifo.get?_some hget).1, rfl, rfl⟩
    · exact ⟨rfl, rfl, Fifo.consumed_put _ _⟩

/-! ## What every schedule keeps -/

/-- Everything that the reader of `xs` puts behind what the queue began with. -/
def items (t : Tasks σ ι α β γ) (seed : List α) (xs : List ι) : List α :=
  seed ++ t.reader.total xs

/-- What the tasks come to one after the other: the reader reads everything, then the worker
has `n` turns, then the loop takes all it finds. -/
def sequential (t : Tasks σ ι α β γ) (seed : List α) (xs : List ι) (x : σ) (n : Nat) :
    List γ × Option End :=
  drain t.body [] (t.worker.produced (some x, items t seed xs) n)

/-- Where a run is, measured by the worker alone: `n` of its turns have put
everything there is for the loop, and while the loop goes on the worker stands
where it does after them. -/
structure Tracks (t : Tasks σ ι α β γ) (seed : List α) (xs : List ι) (x : σ) (turns n : Nat)
    (l : Line σ ι α β γ) : Prop where
  fed : Fed t.reader xs seed turns (l.outbox.ended = none) l.feed l.inbox.history
  worker : l.outbox.ended = none →
    (l.worker, (items t seed xs).drop l.inbox.taken) =
      t.worker.after n (some x, items t seed xs)
  history : l.outbox.ended = none →
    l.outbox.queue.history = t.worker.produced (some x, items t seed xs) n
  consumed : l.outbox.queue.consumed <+: t.worker.produced (some x, items t seed xs) n
  result : l.result = drain t.body [] l.outbox.queue.consumed

namespace Tracks

variable {seed : List α} {xs : List ι} {x : σ} {turns n : Nat}

theorem start {inbox : Fifo α} (hhistory : inbox.history = seed) (htaken : inbox.taken = 0) :
    Tracks t seed xs x 0 0 { feed := some xs, worker := some x, inbox, outbox := {} } where
  fed := hhistory ▸ Fed.start
  worker := fun _ => by
    rw [htaken]
    rfl
  history := fun _ => rfl
  consumed := List.nil_prefix
  result := rfl

/-- What the worker finds is what it would find alone. -/
theorem inbox_prefix (h : Tracks t seed xs x turns n l) : l.inbox.history <+: items t seed xs :=
  h.fed.history_prefix

theorem runReader (h : Tracks t seed xs x turns n l) :
    Tracks t seed xs x (turns + 1) n (l.runReader t) where
  fed := by
    have hturn := h.fed.turn
    rw [← Fifo.history_putAll] at hturn
    exact hturn
  worker := by
    intro hrunning
    simp only [Line.runReader, Fifo.taken_putAll]
    exact h.worker hrunning
  history := h.history
  consumed := h.consumed
  result := h.result

/-- After the end of the loop nothing counts but what was taken. -/
theorem of_ended {l' : Line σ ι α β γ} (h : Tracks t seed xs x turns n l)
    (hended : l.outbox.ended.isSome) (hinbox : l'.inbox.history = l.inbox.history)
    (hfeed : l'.feed = l.feed ∨ l'.feed = none) (hresult : l'.result = l.result)
    (hconsumed : l'.outbox.queue.consumed = l.outbox.queue.consumed) :
    Tracks t seed xs x turns n l' := by
  have hended' : l'.outbox.ended = l.outbox.ended := congrArg Prod.snd hresult
  have hover : ¬ l.outbox.ended = none := Option.isSome_iff_ne_none.mp hended
  constructor
  · rw [hinbox, hended']
    obtain hfeed | hfeed := hfeed
    · rw [hfeed]
      exact h.fed
    · rw [hfeed]
      exact h.fed.cancel hover
  · intro hrunning
    exact absurd (hended' ▸ hrunning) hover
  · intro hrunning
    exact absurd (hended' ▸ hrunning) hover
  · rw [hconsumed]
    exact h.consumed
  · rw [hresult, hconsumed]
    exact h.result

/-- The worker moves on by one turn of its own. -/
theorem next {l' : Line σ ι α β γ} (h : Tracks t seed xs x turns n l) (put : List β)
    (hrunning : l.outbox.ended = none)
    (hfed : Fed t.reader xs seed turns (l'.outbox.ended = none) l'.feed l'.inbox.history)
    (hworker : t.worker.turn (l.worker, (items t seed xs).drop l.inbox.taken) =
      (put, (l'.worker, (items t seed xs).drop l'.inbox.taken)))
    (hhistory : l'.outbox.queue.history = l.outbox.queue.history ++ put)
    (hconsumed : l'.outbox.queue.consumed = l.outbox.queue.consumed)
    (hresult : l'.result = l.result) :
    Tracks t seed xs x turns (n + 1) l' where
  fed := hfed
  worker := fun _ => by rw [Worker.after_succ, ← h.worker hrunning, hworker]
  history := fun _ => by
    rw [Worker.produced, ← h.worker hrunning, hworker, hhistory, h.history hrunning]
  consumed := hconsumed ▸ h.consumed.trans (List.prefix_append _ _)
  result := by rw [hresult, hconsumed, h.result]

theorem leave (h : Tracks t seed xs x turns n l) (hrunning : l.outbox.ended = none) {y : σ}
    (hy : l.worker = some y) (hact : t.worker.act y = .leave) :
    Tracks t seed xs x turns (n + 1) (l.leave t) := by
  refine h.next [t.worker.exit] hrunning h.fed ?_ ?_ ?_ rfl
  · rw [hy]
    simp only [Worker.turn, hact]
    rfl
  · exact Fifo.history_put _ _
  · exact Fifo.consumed_put _ _

/-- A turn of the worker is one of the worker alone, unless the loop has ended or
the worker waits for the reader. -/
theorem runWorker (h : Tracks t seed xs x turns n l) :
    Tracks t seed xs x turns n (l.runWorker t) ∧
      (l.outbox.ended.isSome ∨ l.inbox.history ≠ items t seed xs) ∨
    Tracks t seed xs x turns (n + 1) (l.runWorker t) := by
  by_cases hended : l.outbox.ended.isSome
  · left
    obtain ⟨hinbox, hfeed, hconsumed⟩ := runWorker_keeps t l
    have hresult : (l.step t .worker).result = l.result := result_step (by decide)
    exact ⟨h.of_ended hended hinbox (.inl hfeed) hresult hconsumed, .inl hended⟩
  have hrunning : l.outbox.ended = none := Option.not_isSome_iff_eq_none.mp hended
  simp only [Line.runWorker]
  split
  · rename_i hover
    right
    refine h.next [] hrunning h.fed ?_ (List.append_nil _).symm rfl rfl
    rw [hover]
    rfl
  · rename_i y hy
    split
    · rename_i item next hact
      right
      refine h.next [item] hrunning h.fed ?_ (Fifo.history_put _ _)
        (Fifo.consumed_put _ _) rfl
      rw [hy]
      simp only [Worker.turn, hact]
    · rename_i resume hact
      split
      · -- the queue is empty: for now, or because the reader is over
        rename_i hget
        by_cases hall : l.inbox.history = items t seed xs
        · right
          refine h.next [] hrunning h.fed ?_ (List.append_nil _).symm rfl rfl
          rw [hy, ← hall, Fifo.drop_taken_eq_nil hget]
          simp only [Worker.turn, hact]
        · exact .inl ⟨h, .inr hall⟩
      · rename_i item inbox hget
        right
        refine h.next [] hrunning ?_ ?_ (List.append_nil _).symm rfl rfl
        · rw [(Fifo.get?_some hget).1]
          exact h.fed
        · rw [hy, Fifo.drop_taken hget h.inbox_prefix]
          simp only [Worker.turn, hact]
    · rename_i hact
      exact .inr (h.leave hrunning hy hact)

theorem runConsumer (h : Tracks t seed xs x turns n l) :
    Tracks t seed xs x turns n (l.step t .consumer) := by
  simp only [step]
  obtain heq | ⟨hrunning, item, queue, hget, heq⟩ :=
    Consumer.step_cases (t.body l.outbox.output) l.outbox
  · rw [heq]
    exact h
  · obtain ⟨hhistory, hconsumed⟩ := Fifo.get?_some hget
    have houtput : l.outbox.output = (drain t.body [] l.outbox.queue.consumed).1 :=
      congrArg Prod.fst h.result
    have hdrain : (drain t.body [] l.outbox.queue.consumed).2 = none :=
      (congrArg Prod.snd h.result).symm.trans hrunning
    rw [heq]
    constructor
    · exact h.fed.mono fun _ => hrunning
    · exact fun _ => h.worker hrunning
    · exact fun _ => hhistory.trans (h.history hrunning)
    · exact (hhistory.trans (h.history hrunning)) ▸ queue.consumed_prefix
    · rw [hconsumed, drain_append hdrain, ← houtput]
      simp only [Line.result, drain]
      split
      · rename_i e he
        rw [he]
      · rename_i he
        rw [he]

/-- One turn of any task. The worker's turns all count once its queue is
complete. -/
theorem step (h : Tracks t seed xs x turns n l) (task : Task) :
    ∃ m, Tracks t seed xs x (turns + [task].count .reader) m (l.step t task) ∧ n ≤ m ∧
      (l.outbox.ended = none → l.inbox.history = items t seed xs →
        n + [task].count .worker ≤ m) := by
  cases task with
  | reader => exact ⟨n, h.runReader, Nat.le_refl n, fun _ _ => Nat.le_refl n⟩
  | worker =>
      obtain ⟨h', hwaits⟩ | h' := h.runWorker
      · refine ⟨n, h', Nat.le_refl n, fun hrunning hall => ?_⟩
        obtain hended | hpart := hwaits
        · exact absurd hrunning (Option.isSome_iff_ne_none.mp hended)
        · exact absurd hall hpart
      · exact ⟨n + 1, h', Nat.le_succ n, fun _ _ => Nat.le_refl _⟩
  | consumer => exact ⟨n, h.runConsumer, Nat.le_refl n, fun _ _ => Nat.le_refl n⟩
  | cancelReader =>
      refine ⟨n, ?_, Nat.le_refl n, fun _ _ => Nat.le_refl n⟩
      simp only [Line.step]
      split
      · rename_i hended
        exact h.of_ended hended rfl (.inr rfl) rfl rfl
      · exact h
  | cancelWorker =>
      refine ⟨n, ?_, Nat.le_refl n, fun _ _ => Nat.le_refl n⟩
      simp only [Line.step]
      split
      · rename_i hcancel
        exact h.of_ended hcancel.1 rfl (.inl rfl) rfl (Fifo.consumed_put _ _)
      · exact h

theorem run (h : Tracks t seed xs x turns n l) (schedule : List Task) :
    ∃ m, Tracks t seed xs x (turns + schedule.count .reader) m (l.run t schedule) ∧ n ≤ m := by
  induction schedule generalizing turns n l with
  | nil => exact ⟨n, h, Nat.le_refl n⟩
  | cons task schedule ih =>
      obtain ⟨k, hk, hnk, -⟩ := h.step task
      obtain ⟨m, hm, hkm⟩ := ih hk
      refine ⟨m, ?_, Nat.le_trans hnk hkm⟩
      rw [count_cons, ← Nat.add_assoc]
      exact hm

/-- No run gets beyond the tasks one after the other. -/
theorem precedes_sequential (h : Tracks t seed xs x turns n l) :
    Precedes l.result (sequential t seed xs x n) := by
  rw [h.result]
  exact precedes_drain h.consumed

/-- **Determinacy.** Of the results of two runs one is a later stage of the other,
whatever the schedules. -/
theorem precedes {l' : Line σ ι α β γ} {turns' m : Nat} (h : Tracks t seed xs x turns n l)
    (h' : Tracks t seed xs x turns' m l') :
    Precedes l.result l'.result ∨ Precedes l'.result l.result := by
  have hmono : ∀ {k}, k ≤ max n m → t.worker.produced (some x, items t seed xs) k <+:
      t.worker.produced (some x, items t seed xs) (max n m) := Worker.produced_mono
  have hcomparable := List.prefix_or_prefix_of_prefix
    (h.consumed.trans (hmono (Nat.le_max_left n m)))
    (h'.consumed.trans (hmono (Nat.le_max_right n m)))
  rw [h.result, h'.result]
  exact hcomparable.imp precedes_drain precedes_drain

end Tracks

/-! ## The loop's queue -/

/-- The loop's queue holds what the worker has put, and behind it the last item of
a worker that is over. -/
def Holds (t : Tasks σ ι α β γ) (l : Line σ ι α β γ) : Prop :=
  ∃ puts : List β, l.outbox.queue.history =
      puts ++ (if l.worker.isNone then [t.worker.exit] else []) ∧
    ∀ item ∈ puts, ∃ x next, t.worker.act x = .put item next

theorem Holds.leave (h : Holds t l) (hlive : l.worker.isNone = false) : Holds t (l.leave t) := by
  obtain ⟨puts, hhistory, hputs⟩ := h
  refine ⟨puts, ?_, hputs⟩
  simp only [hlive, Bool.false_eq_true, if_false, List.append_nil] at hhistory
  simp only [Line.leave, Consumer.put, Fifo.history_put, hhistory, Option.isNone_none, if_true]

theorem Holds.runWorker (h : Holds t l) : Holds t (l.runWorker t) := by
  simp only [Line.runWorker]
  split
  · exact h
  · rename_i x hx
    have hlive : l.worker.isNone = false := by rw [hx]; rfl
    split
    · rename_i item next hact
      obtain ⟨puts, hhistory, hputs⟩ := h
      simp only [hlive, Bool.false_eq_true, if_false, List.append_nil] at hhistory
      refine ⟨puts ++ [item], ?_, ?_⟩
      · simp [Consumer.put, hhistory]
      · intro y hy
        obtain hy | hy := List.mem_append.mp hy
        · exact hputs y hy
        · rw [List.mem_singleton.mp hy]
          exact ⟨x, next, hact⟩
    · split
      · exact h
      · obtain ⟨puts, hhistory, hputs⟩ := h
        refine ⟨puts, ?_, hputs⟩
        rw [hhistory, hlive]
        rfl
    · exact h.leave hlive

theorem Holds.step (h : Holds t l) (task : Task) : Holds t (l.step t task) := by
  cases task with
  | reader => exact h
  | worker => exact h.runWorker
  | consumer =>
      obtain ⟨puts, hhistory, hputs⟩ := h
      refine ⟨puts, ?_, hputs⟩
      simp only [Line.step, Consumer.step_history]
      exact hhistory
  | cancelReader =>
      simp only [Line.step]
      split
      · exact h
      · exact h
  | cancelWorker =>
      simp only [Line.step]
      split
      · rename_i hcancel
        apply h.leave
        rw [← Option.not_isSome, hcancel.2]
        rfl
      · exact h

theorem Holds.run (h : Holds t l) (schedule : List Task) : Holds t (l.run t schedule) := by
  induction schedule generalizing l with
  | nil => exact h
  | cons task schedule ih => exact ih (h.step task)

/-! ## Fair schedules -/

/-- Every task has a turn. -/
def Fair (round : List Task) : Prop := .reader ∈ round ∧ .worker ∈ round ∧ .consumer ∈ round

instance (round : List Task) : Decidable (Fair round) := by
  unfold Fair
  infer_instance

theorem length_le_count {rounds : List (List Task)} {task : Task}
    (h : ∀ round ∈ rounds, task ∈ round) : rounds.length ≤ rounds.flatten.count task := by
  induction rounds with
  | nil => exact Nat.le_refl 0
  | cons round rounds ih =>
      obtain ⟨hround, hrounds⟩ := List.forall_mem_cons.mp h
      have hone : 1 ≤ round.count task := List.count_pos_iff.mpr hround
      have hrest := ih hrounds
      rw [List.flatten_cons, List.count_append, List.length_cons]
      omega

theorem ended_of_step {task : Task} (h : (l.step t task).outbox.ended = none) :
    l.outbox.ended = none := by
  by_cases htask : task = .consumer
  · subst htask
    by_contra hended
    have hsome : l.outbox.ended.isSome := Option.isSome_iff_ne_none.mpr hended
    simp only [step, Consumer.step_of_ended hsome] at h
    exact hended h
  · rw [← h]
    exact (congrArg Prod.snd (result_step htask)).symm

theorem ended_of_run {schedule : List Task} (h : (l.run t schedule).outbox.ended = none) :
    l.outbox.ended = none := by
  induction schedule generalizing l with
  | nil => exact h
  | cons task schedule ih => exact ended_of_step (ih h)

/-- The other tasks take nothing from the loop's queue. -/
theorem queue_step {task : Task} (h : task ≠ .consumer) :
    (l.step t task).outbox.queue.taken = l.outbox.queue.taken ∧
      l.outbox.queue.history.length ≤ (l.step t task).outbox.queue.history.length := by
  have hput : ∀ item, l.outbox.queue.history.length ≤
      (l.outbox.put item).queue.history.length := by
    intro item
    simp only [Consumer.put, Fifo.history_put, List.length_append]
    exact Nat.le_add_right _ _
  cases task with
  | reader => exact ⟨rfl, Nat.le_refl _⟩
  | worker =>
      simp only [step, runWorker]
      split
      · exact ⟨rfl, Nat.le_refl _⟩
      · split
        · exact ⟨rfl, hput _⟩
        · split <;> exact ⟨rfl, Nat.le_refl _⟩
        · exact ⟨rfl, hput _⟩
  | consumer => exact absurd rfl h
  | cancelReader =>
      simp only [step]
      split <;> exact ⟨rfl, Nat.le_refl _⟩
  | cancelWorker =>
      simp only [step]
      split
      · exact ⟨rfl, hput _⟩
      · exact ⟨rfl, Nat.le_refl _⟩

/-- A turn of the loop takes an item if there is one. -/
theorem taken_step (hrunning : l.outbox.ended = none) {k : Nat}
    (hk : k ≤ l.outbox.queue.history.length) (task : Task) :
    min k (l.outbox.queue.taken + [task].count .consumer) ≤
        (l.step t task).outbox.queue.taken ∧
      k ≤ (l.step t task).outbox.queue.history.length := by
  by_cases htask : task = .consumer
  · subst htask
    have hhistory := Consumer.step_history (t.body l.outbox.output) l.outbox
    refine ⟨?_, by rw [step, hhistory]; exact hk⟩
    simp only [step, Consumer.step, hrunning, List.count_singleton_self]
    cases hget : l.outbox.queue.get? with
    | none =>
        have hall := congrArg List.length (Fifo.get?_eq_none.mp hget)
        rw [Fifo.consumed, List.length_take] at hall
        simp only
        omega
    | some p =>
        simp only [Fifo.get?_taken hget]
        omega
  · obtain ⟨htaken, hlength⟩ := queue_step (t := t) (l := l) htask
    have hcount : [task].count .consumer = 0 := List.count_eq_zero.mpr fun hmem =>
      htask (List.mem_singleton.mp hmem).symm
    rw [htaken, hcount]
    omega

theorem taken_run {k : Nat} {schedule : List Task} (hk : k ≤ l.outbox.queue.history.length)
    (hrunning : (l.run t schedule).outbox.ended = none) :
    min k (l.outbox.queue.taken + schedule.count .consumer) ≤
      (l.run t schedule).outbox.queue.taken := by
  induction schedule generalizing l with
  | nil => exact Nat.min_le_right _ _
  | cons task schedule ih =>
      have hstep := ended_of_run (l := l.step t task) hrunning
      obtain ⟨htaken, hk'⟩ := taken_step (t := t) (ended_of_step hstep) hk task
      have hrest := ih hk' hrunning
      have hcount := count_cons task schedule .consumer
      have hrun : l.run t (task :: schedule) = (l.step t task).run t schedule := rfl
      rw [hrun, hcount]
      omega

namespace Tracks

variable {seed : List α} {xs : List ι} {x : σ} {turns n : Nat}

/-- A reader that has had enough turns has put everything. -/
theorem inbox_complete (h : Tracks t seed xs x turns n l) (hrunning : l.outbox.ended = none)
    (hturns : xs.length < turns) : l.inbox.history = items t seed xs := by
  have hover := Reader.after_eq_none (r := t.reader) hturns
  rw [(h.fed.history_eq hrunning).1, Reader.produced_eq_total hover]
  rfl

/-- From then on the worker's turns all count. -/
theorem run_worker (h : Tracks t seed xs x turns n l) (hturns : xs.length < turns)
    {schedule : List Task} (hrunning : (l.run t schedule).outbox.ended = none) :
    ∃ m, Tracks t seed xs x (turns + schedule.count .reader) m (l.run t schedule) ∧
      n + schedule.count .worker ≤ m := by
  induction schedule generalizing turns n l with
  | nil => exact ⟨n, h, Nat.le_refl n⟩
  | cons task schedule ih =>
      have hstep := ended_of_run (l := l.step t task) hrunning
      have hl := ended_of_step hstep
      obtain ⟨k, hk, -, hcount⟩ := h.step task
      obtain ⟨m, hm, hkm⟩ := ih hk (by omega) hrunning
      have hworker := hcount hl (h.inbox_complete hl hturns)
      refine ⟨m, ?_, ?_⟩
      · rw [count_cons, ← Nat.add_assoc]
        exact hm
      · rw [count_cons]
        omega

end Tracks

/-! ## Catching up -/

/-- The loop has ended, or the worker has had `k` turns that count and the loop has taken
`j` items. -/
structure Reached (t : Tasks σ ι α β γ) (seed : List α) (xs : List ι) (x : σ) (k j : Nat)
    (l : Line σ ι α β γ) : Prop where
  tracks : ∃ turns m, Tracks t seed xs x turns m l ∧
    (l.outbox.ended = none → k ≤ m ∧ j ≤ l.outbox.queue.taken)

namespace Reached

variable {seed : List α} {xs : List ι} {x : σ} {k j : Nat}

theorem start {turns m : Nat} (h : Tracks t seed xs x turns m l) : Reached t seed xs x 0 0 l :=
  ⟨turns, m, h, fun _ => ⟨Nat.zero_le m, Nat.zero_le _⟩⟩

/-- Every turn keeps what has been reached. -/
theorem step (h : Reached t seed xs x k j l) (task : Task) :
    Reached t seed xs x k j (l.step t task) := by
  obtain ⟨turns, m, htracks, hreached⟩ := h.tracks
  obtain ⟨m', hnext, hle, -⟩ := htracks.step task
  refine ⟨_, m', hnext, fun hrunning => ?_⟩
  have hwas := ended_of_step hrunning
  obtain ⟨hk, hj⟩ := hreached hwas
  have htaken := (taken_step (t := t) hwas l.outbox.queue.taken_le task).1
  exact ⟨Nat.le_trans hk hle, by omega⟩

/-- A turn of a worker that finds all there is. -/
theorem worker (h : Reached t seed xs x k j l)
    (hall : l.outbox.ended = none → l.inbox.history = items t seed xs) :
    Reached t seed xs x (k + 1) j (l.step t .worker) := by
  obtain ⟨turns, m, htracks, hreached⟩ := h.tracks
  obtain ⟨m', hnext, -, hcount⟩ := htracks.step .worker
  refine ⟨_, m', hnext, fun hrunning => ?_⟩
  have hwas := ended_of_step hrunning
  obtain ⟨hk, hj⟩ := hreached hwas
  have hone := hcount hwas (hall hwas)
  have htaken := (taken_step (t := t) hwas l.outbox.queue.taken_le .worker).1
  rw [List.count_singleton_self] at hone
  exact ⟨by omega, by omega⟩

/-- A turn of a loop for which there is an item. -/
theorem consumer (h : Reached t seed xs x k j l)
    (hmore : j < (t.worker.produced (some x, items t seed xs) k).length) :
    Reached t seed xs x k (j + 1) (l.step t .consumer) := by
  obtain ⟨turns, m, htracks, hreached⟩ := h.tracks
  obtain ⟨m', hnext, hle, -⟩ := htracks.step .consumer
  refine ⟨_, m', hnext, fun hrunning => ?_⟩
  have hwas := ended_of_step hrunning
  obtain ⟨hk, hj⟩ := hreached hwas
  have hput : (t.worker.produced (some x, items t seed xs) k).length ≤
      l.outbox.queue.history.length := by
    rw [htracks.history hwas]
    exact (Worker.produced_mono hk).length_le
  have htaken := (taken_step (t := t) hwas hput .consumer).1
  rw [List.count_singleton_self] at htaken
  exact ⟨Nat.le_trans hk hle, by omega⟩

/-- A run that has had these turns has put out what the tasks put out one after the
other. -/
theorem sequential
    (h : Reached t seed xs x k (t.worker.produced (some x, items t seed xs) k).length l) :
    Precedes (Line.sequential t seed xs x k) l.result := by
  obtain ⟨turns, m, htracks, hreached⟩ := h.tracks
  rw [htracks.result]
  have hmono : ∀ {n}, n ≤ max k m → t.worker.produced (some x, items t seed xs) n <+:
      t.worker.produced (some x, items t seed xs) (max k m) := Worker.produced_mono
  have htook : l.outbox.queue.consumed.length = l.outbox.queue.taken := by
    rw [Fifo.consumed, List.length_take, Nat.min_eq_left l.outbox.queue.taken_le]
  obtain hput | htaken := List.prefix_or_prefix_of_prefix (hmono (Nat.le_max_left k m))
    (htracks.consumed.trans (hmono (Nat.le_max_right k m)))
  · exact precedes_drain hput
  · by_cases hended : l.outbox.ended.isSome
    · have hlater : Precedes (drain t.body [] l.outbox.queue.consumed)
          (Line.sequential t seed xs x k) := precedes_drain htaken
      rw [← htracks.result] at hlater ⊢
      rw [hlater.ended hended]
      exact Precedes.rfl'
    · obtain ⟨-, hlength⟩ := hreached (Option.not_isSome_iff_eq_none.mp hended)
      rw [← htook] at hlength
      rw [htaken.eq_of_length_le hlength]
      exact Precedes.rfl'

/-- A run that has had as many turns as another one has put out as much. -/
theorem precedes {l' : Line σ ι α β γ} {turns : Nat} (h : Tracks t seed xs x turns k l')
    (h' : Reached t seed xs x k (t.worker.produced (some x, items t seed xs) k).length l) :
    Precedes l'.result l.result :=
  h.precedes_sequential.trans h'.sequential

end Reached

namespace Tracks

variable {seed : List α} {xs : List ι} {x : σ} {n : Nat}

/-- Turns for the reader, then for the worker, then for the loop. -/
theorem reached_of_counts (h : Tracks t seed xs x 0 0 l) {a b c : List Task}
    (ha : xs.length < a.count .reader) (hb : n ≤ b.count .worker)
    (hc : (t.worker.produced (some x, items t seed xs) n).length ≤ c.count .consumer) :
    Reached t seed xs x n (t.worker.produced (some x, items t seed xs) n).length
      (l.run t (a ++ (b ++ c))) := by
  rw [run_append, run_append]
  obtain ⟨k₁, h₁, -⟩ := h.run a
  by_cases hrunning : (((l.run t a).run t b).run t c).outbox.ended = none
  · have hrunning₂ := ended_of_run hrunning
    obtain ⟨k₂, h₂, hk₂⟩ := h₁.run_worker (by omega) hrunning₂
    obtain ⟨k₃, h₃, hk₃⟩ := h₂.run c
    have hput : (t.worker.produced (some x, items t seed xs) n).length ≤
        ((l.run t a).run t b).outbox.queue.history.length := by
      rw [h₂.history hrunning₂]
      exact (Worker.produced_mono (by omega)).length_le
    have htaken := taken_run hput hrunning
    exact ⟨_, k₃, h₃, fun _ => ⟨by omega, by omega⟩⟩
  · obtain ⟨k₂, h₂, -⟩ := h₁.run b
    obtain ⟨k₃, h₃, -⟩ := h₂.run c
    exact ⟨_, k₃, h₃, fun hnone => absurd hnone hrunning⟩

/-- Enough fair rounds contain such turns. -/
theorem reached_of_fair (h : Tracks t seed xs x 0 0 l) (n : Nat) :
    ∃ enough, ∀ rounds : List (List Task), enough ≤ rounds.length →
      (∀ round ∈ rounds, Fair round) →
        Reached t seed xs x n (t.worker.produced (some x, items t seed xs) n).length
          (l.run t rounds.flatten) := by
  let puts := (t.worker.produced (some x, items t seed xs) n).length
  refine ⟨xs.length + 1 + n + puts, fun rounds hlength hfair => ?_⟩
  -- so many rounds for the reader, so many for the worker, the rest for the loop
  let a := rounds.take (xs.length + 1)
  let b := (rounds.drop (xs.length + 1)).take n
  let c := (rounds.drop (xs.length + 1)).drop n
  have hsplit : rounds = a ++ (b ++ c) := by
    rw [List.take_append_drop, List.take_append_drop]
  have hmem : ∀ round ∈ a ++ (b ++ c), Fair round := hsplit ▸ hfair
  simp only [List.mem_append] at hmem
  have ha : a.length ≤ a.flatten.count .reader :=
    length_le_count fun round hround => (hmem round (.inl hround)).1
  have hb : b.length ≤ b.flatten.count .worker :=
    length_le_count fun round hround => (hmem round (.inr (.inl hround))).2.1
  have hc : c.length ≤ c.flatten.count .consumer :=
    length_le_count fun round hround => (hmem round (.inr (.inr hround))).2.2
  have hlengths : a.length = xs.length + 1 ∧ b.length = n ∧ puts ≤ c.length := by
    simp only [a, b, c, List.length_take, List.length_drop]
    omega
  rw [hsplit, List.flatten_append, List.flatten_append]
  exact h.reached_of_counts (by omega) (by omega) (by omega)

/-- **Progress.** What one run has put out when its loop ended, every fair run puts
out, and it ends alike. -/
theorem ends {l₀ : Line σ ι α β γ} {turns : Nat} (h : Tracks t seed xs x turns n l)
    (hended : l.outbox.ended.isSome) (h₀ : Tracks t seed xs x 0 0 l₀) :
    ∃ enough, ∀ rounds : List (List Task), enough ≤ rounds.length →
      (∀ round ∈ rounds, Fair round) → (l₀.run t rounds.flatten).result = l.result := by
  obtain ⟨enough, hreached⟩ := h₀.reached_of_fair n
  exact ⟨enough, fun rounds hlength hfair =>
    (Reached.precedes h (hreached rounds hlength hfair)).ended hended⟩

end Tracks

/-! ## Systems that are lines -/

section View

variable {S τ : Type*} {view : S → Line σ ι α β γ} {act : S → τ → S} {turn : τ → Task}
variable {seed : List α} {xs : List ι} {x : σ} {s : S}

/-- A system whose steps are turns of a line runs as the line does. -/
theorem view_foldl (hact : ∀ s a, view (act s a) = (view s).step t (turn a)) (schedule : List τ)
    (s : S) : view (schedule.foldl act s) = (view s).run t (schedule.map turn) := by
  induction schedule generalizing s with
  | nil => rfl
  | cons a schedule ih =>
      rw [List.foldl_cons, ih, hact]
      rfl

/-- Determinacy and progress for such a system. -/
theorem any_schedule (hact : ∀ s a, view (act s a) = (view s).step t (turn a))
    (h₀ : Tracks t seed xs x 0 0 (view s)) (a : List τ) :
    (∀ b : List τ, Precedes (view (a.foldl act s)).result (view (b.foldl act s)).result ∨
      Precedes (view (b.foldl act s)).result (view (a.foldl act s)).result) ∧
    ((view (a.foldl act s)).outbox.ended.isSome → ∃ enough, ∀ rounds : List (List τ),
      enough ≤ rounds.length → (∀ round ∈ rounds, Fair (round.map turn)) →
        (view (rounds.flatten.foldl act s)).result = (view (a.foldl act s)).result) := by
  simp only [view_foldl hact]
  obtain ⟨n, ha, -⟩ := h₀.run (a.map turn)
  constructor
  · intro b
    obtain ⟨m, hb, -⟩ := h₀.run (b.map turn)
    exact ha.precedes hb
  · intro hended
    obtain ⟨enough, hends⟩ := ha.ends hended h₀
    refine ⟨enough, fun rounds hlength hfair => ?_⟩
    rw [List.map_flatten]
    apply hends
    · rw [List.length_map]
      exact hlength
    · intro round hround
      obtain ⟨r, hr, rfl⟩ := List.mem_map.mp hround
      exact hfair r hr

/-- Such a system is its tasks one after the other: no run gets beyond what they come to,
and every fair run gets as far. -/
theorem sequential_runs (hact : ∀ s a, view (act s a) = (view s).step t (turn a))
    (h₀ : Tracks t seed xs x 0 0 (view s)) :
    (∀ a : List τ, ∃ n, Precedes (view (a.foldl act s)).result (sequential t seed xs x n)) ∧
    ∀ n, ∃ enough, ∀ rounds : List (List τ), enough ≤ rounds.length →
      (∀ round ∈ rounds, Fair (round.map turn)) →
        Precedes (sequential t seed xs x n) (view (rounds.flatten.foldl act s)).result := by
  simp only [view_foldl hact]
  constructor
  · intro a
    obtain ⟨n, ha, -⟩ := h₀.run (a.map turn)
    exact ⟨n, ha.precedes_sequential⟩
  · intro n
    obtain ⟨enough, hreached⟩ := h₀.reached_of_fair n
    refine ⟨enough, fun rounds hlength hfair => ?_⟩
    rw [List.map_flatten]
    refine Reached.sequential (hreached _ ?_ ?_)
    · rw [List.length_map]
      exact hlength
    · intro round hround
      obtain ⟨r, hr, rfl⟩ := List.mem_map.mp hround
      exact hfair r hr

end View

end Line

end Pipeline
