import Mathlib.Algebra.GroupWithZero.Nat
import Mathlib.Data.List.Sort
import Rollout.Proofs.Run.Crew
import Rollout.Proofs.Text.Order

/-!
Batches of which everything is foretold: what each file reads as, and what comes of storing an
object, as long as no more objects are stored than there are uploads. Then the end of a batch is
foretold as well, whether its uploads are attempted one after the other or by workers side by side:
how each attempt ends depends on nothing that the others do.
-/

namespace Rollout

/-- The key and the bytes that a request stores, if it stores an object. -/
def Request.stored? : Request → Option (String × ByteArray)
  | .store (.put _ key body) => some (key, body)
  | _ => none

/-- The keys and bytes stored by requests, one after the other. -/
def Request.puts (log : List Request) : List (String × ByteArray) := log.filterMap stored?

@[simp] theorem Request.puts_nil : puts [] = [] := rfl

@[simp] theorem Request.puts_append (log log' : List Request) :
    puts (log ++ log') = puts log ++ puts log' := List.filterMap_append

@[simp] theorem Request.puts_onMachine (c : LocalCall) (log : List Request) :
    puts (.onMachine c :: log) = puts log := rfl

@[simp] theorem Request.puts_control (c : ControlCall) (log : List Request) :
    puts (.control c :: log) = puts log := rfl

@[simp] theorem Request.puts_put (bucket key : String) (body : ByteArray) (log : List Request) :
    puts (.store (.put bucket key body) :: log) = (key, body) :: puts log := rfl

namespace Program

variable {σ α β : Type} {h : Handler σ} {s s' : σ}

/-- The requests of a run of a program. -/
def asked (h : Handler σ) (p : Program α) (s : σ) : List Request :=
  (p.moments h s).map Moment.request

theorem asked_ask (r : Request) (next : r.Answer → Program α) :
    (ask r next).asked h s = r :: (next (h.answer r s).1).asked h (h.answer r s).2 := rfl

theorem asked_bind {p : Program α} {a : α} (hp : p.run h s = (some a, s')) (f : α → Program β) :
    (p.bind f).asked h s = p.asked h s ++ (f a).asked h s' := by
  rw [asked, moments_bind, hp, List.map_append]
  rfl

theorem run_bind_of_some {p : Program α} {a : α} (hp : p.run h s = (some a, s'))
    (f : α → Program β) : (p.bind f).run h s = (f a).run h s' := by
  rw [run_bind, hp]

end Program

namespace Artifacts

/-- What is foretold of a batch: what its files read as, and what comes of storing an object. -/
structure Forecast where
  reads : Path → Except FileError ByteArray
  stored : Except StoreError Unit

namespace Forecast

variable {σ : Type} {F : Forecast} {h : Handler σ} {bucket : String} {us us' : List PendingUpload}
  {u : PendingUpload}

/-! ## One upload -/

/-- How the attempt at an upload ends. -/
def attempt (F : Forecast) (u : PendingUpload) : Except Failure Unit :=
  ((F.reads u.path).mapError (fileFailure u.key)).bind fun _ => F.stored.mapError (.upload u.key)

/-- What is told of an upload if it fails. -/
def failure? (F : Forecast) (u : PendingUpload) : Option UploadFailure :=
  match F.attempt u with
  | .ok _ => none
  | .error e => some ⟨u.key, e.message⟩

/-- What is stored for an upload: the bytes of its file if it can be read. -/
def writes (F : Forecast) (u : PendingUpload) : List (String × ByteArray) :=
  ((F.reads u.path).toOption.map fun body => (u.key, body)).toList

/-- The requests of the attempt at an upload. -/
def requests (F : Forecast) (bucket : String) (u : PendingUpload) : List Request :=
  .onMachine (.read u.path) ::
    ((F.reads u.path).toOption.map fun body => .store (.put bucket u.key body)).toList

/-- What the whole batch ends with. -/
def verdict (F : Forecast) (us : List PendingUpload) : Except Failure Unit :=
  verdictOf (us.filterMap F.failure?)

theorem attempt_of_read {body : ByteArray} (hread : F.reads u.path = .ok body) :
    F.attempt u = F.stored.mapError (.upload u.key) := by
  rw [attempt, hread]
  rfl

theorem attempt_of_error {e : FileError} (hread : F.reads u.path = .error e) :
    F.attempt u = .error (fileFailure u.key e) := by
  rw [attempt, hread]
  rfl

theorem requests_of_read {body : ByteArray} (hread : F.reads u.path = .ok body) :
    F.requests bucket u = [.onMachine (.read u.path), .store (.put bucket u.key body)] := by
  rw [requests, hread]
  rfl

theorem requests_of_error {e : FileError} (hread : F.reads u.path = .error e) :
    F.requests bucket u = [.onMachine (.read u.path)] := by
  rw [requests, hread]
  rfl

theorem puts_requests (F : Forecast) (bucket : String) (u : PendingUpload) :
    Request.puts (F.requests bucket u) = F.writes u := by
  unfold requests writes
  cases F.reads u.path <;> rfl

/-- A world that answers a batch as foretold. What it stores is up to `I`, which says what is true
of it after so many objects were stored. -/
structure Foretells (F : Forecast) (h : Handler σ) (bucket : String) (us : List PendingUpload)
    (I : List (String × ByteArray) → σ → Prop) : Prop where
  read : ∀ puts w, I puts w → ∀ u ∈ us,
    (h.answer (.onMachine (.read u.path)) w).1 = F.reads u.path ∧
      I puts (h.answer (.onMachine (.read u.path)) w).2
  put : ∀ puts w, I puts w → puts.length < us.length → ∀ key body,
    (h.answer (.store (.put bucket key body)) w).1 = F.stored ∧
      I (puts ++ [(key, body)]) (h.answer (.store (.put bucket key body)) w).2
  control : ∀ puts w, I puts w → ∀ c, I puts (h.answer (.control c) w).2

/-! ## One worker -/

/-- What is left of an upload after its file was read. -/
def afterRead (bucket : String) (u : PendingUpload) :
    Except FileError ByteArray → Program (Except Failure Unit)
  | .ok body => (uploadBytes bucket u.key body).run
  | .error e => .done (.error (fileFailure u.key e))

theorem uploadFile_eq (bucket : String) (u : PendingUpload) :
    (uploadFile bucket u).run = .ask (.onMachine (.read u.path)) (afterRead bucket u) := by
  rw [uploadFile_run]
  refine congrArg (Program.ask _) (funext fun body => ?_)
  cases body with
  | error e => rfl
  | ok body =>
    exact congrArg (Program.ask (.store (.put bucket u.key body)))
      (funext fun r => by cases r <;> rfl)

theorem uploadBytes_eq (bucket key : String) (body : ByteArray) :
    (uploadBytes bucket key body).run =
      .ask (.store (.put bucket key body)) fun r => .done (r.mapError (.upload key)) :=
  congrArg (Program.ask (.store (.put bucket key body))) (funext fun r => by cases r <;> rfl)

/-- What can be left of an upload after some requests. -/
inductive Left (F : Forecast) (bucket : String) (u : PendingUpload) :
    List Request → Program (Except Failure Unit) → Prop
  | begun : Left F bucket u [] (.ask (.onMachine (.read u.path)) (afterRead bucket u))
  | opened {body : ByteArray} (hread : F.reads u.path = .ok body) :
    Left F bucket u [.onMachine (.read u.path)]
      (.ask (.store (.put bucket u.key body)) fun r => .done (r.mapError (.upload u.key)))
  | ended {r : Except Failure Unit} (hr : F.attempt u = r) :
    Left F bucket u (F.requests bucket u) (.done r)

/-- What a worker can be at. -/
def Stage (F : Forecast) (bucket : String) (us : List PendingUpload) : Worker → Prop
  | .uploading u asked rest => u ∈ us ∧ F.Left bucket u asked rest
  | .reporting _ u => u ∈ us ∧ F.attempt u = .ok ()
  | .free => True
  | .gone => True

/-- How many objects a worker may still store for the upload it has in hand. -/
def owed : Worker → Nat
  | .uploading _ asked _ => 1 - (Request.puts asked).length
  | .reporting .. => 0
  | .free => 0
  | .gone => 0

variable {I : List (String × ByteArray) → σ → Prop} {w w' : Worker} {b b' : Board σ}

/-- A request of an upload is answered as foretold. -/
theorem Foretells.ask (hF : F.Foretells h bucket us I) (hu : u ∈ us) {asked log : List Request}
    {r : Request} {rest : r.Answer → Program (Except Failure Unit)} {world : σ}
    (hleft : F.Left bucket u asked (.ask r rest)) (hworld : I (Request.puts log) world)
    (hroom : (Request.puts log).length + (1 - (Request.puts asked).length) ≤ us.length) :
    F.Left bucket u (asked ++ [r]) (rest (h.answer r world).1) ∧
      I (Request.puts (log ++ [r])) (h.answer r world).2 := by
  rw [Request.puts_append]
  cases hleft with
  | begun =>
    obtain ⟨hanswer, hnext⟩ := hF.read _ _ hworld u hu
    rw [hanswer]
    refine ⟨?_, (List.append_nil (Request.puts log)).symm ▸ hnext⟩
    cases hread : F.reads u.path with
    | error e =>
      have hended : F.Left bucket u _ _ := .ended (attempt_of_error hread)
      rw [requests_of_error hread] at hended
      exact hended
    | ok body =>
      rw [afterRead, uploadBytes_eq]
      exact .opened hread
  | opened hread =>
    obtain ⟨hanswer, hnext⟩ := hF.put _ _ hworld (Nat.lt_of_succ_le hroom) u.key _
    rw [hanswer]
    refine ⟨?_, hnext⟩
    have hended : F.Left bucket u _ _ := .ended (attempt_of_read hread)
    rw [requests_of_read hread] at hended
    exact hended

theorem Foretells.move (hF : F.Foretells h bucket us I) (hmove : Move h bucket us w b w' b')
    (hstage : F.Stage bucket us w) (hworld : I (Request.puts b.log) b.world)
    (hroom : (Request.puts b.log).length + owed w ≤ us.length) :
    F.Stage bucket us w' ∧ I (Request.puts b'.log) b'.world := by
  cases hmove with
  | claim hu => exact ⟨⟨List.mem_of_getElem? hu, uploadFile_eq bucket _ ▸ .begun⟩, hworld⟩
  | leave hnone => exact ⟨trivial, hworld⟩
  | ask =>
    obtain ⟨hleft, hnext⟩ := hF.ask hstage.1 hstage.2 hworld hroom
    exact ⟨⟨hstage.1, hleft⟩, hnext⟩
  | count =>
    obtain ⟨hu, hleft⟩ := hstage
    cases hleft with
    | ended hok => exact ⟨⟨hu, hok⟩, hworld⟩
  | report =>
    refine ⟨trivial, ?_⟩
    rw [Request.puts_append]
    exact (List.append_nil (Request.puts _)).symm ▸ hF.control _ _ hworld _
  | refuse => exact ⟨trivial, hworld⟩

/-! ## What adds up -/

/-- The upload that a worker has in hand. -/
def claimed : Worker → Multiset PendingUpload
  | .uploading u _ _ => {u}
  | .reporting _ u => {u}
  | .free => 0
  | .gone => 0

/-- The count that a worker is going to report. -/
def counted : Worker → Multiset Nat
  | .uploading .. => 0
  | .reporting n _ => {n}
  | .free => 0
  | .gone => 0

/-- The requests that a worker has made for the upload it has in hand. -/
def asked (F : Forecast) (bucket : String) : Worker → Multiset Request
  | .uploading _ asked _ => ↑asked
  | .reporting _ u => ↑(F.requests bucket u)
  | .free => 0
  | .gone => 0

/-- The uploads that are on record. -/
def ended (b : Board σ) : List PendingUpload := b.reported.map Prod.snd ++ b.refused.map Prod.fst

/-- The requests for the uploads that are on record, and the reports. -/
def accounted (F : Forecast) (bucket : String) (total : Nat) (b : Board σ) : List Request :=
  (ended b).flatMap (F.requests bucket) ++ b.reported.map fun e => announcement total e.1 e.2

theorem claimed_move (hmove : Move h bucket us w b w' b') :
    (↑(us.take b'.next) + (claimed w + ↑(ended b)) : Multiset PendingUpload) =
      ↑(us.take b.next) + (claimed w' + ↑(ended b')) := by
  cases hmove with
  | claim hu =>
    simp only [List.take_add_one, hu, Option.toList_some, ← Multiset.coe_add, claimed,
      Multiset.coe_singleton, ended]
    ac_rfl
  | leave hnone =>
    simp only [List.take_add_one, hnone, Option.toList_none, List.append_nil]
    rfl
  | ask => rfl
  | count => rfl
  | report =>
    simp only [ended, List.map_append, List.map_cons, List.map_nil, ← Multiset.coe_add, claimed,
      Multiset.coe_singleton, zero_add]
    ac_rfl
  | refuse =>
    simp only [ended, List.map_append, List.map_cons, List.map_nil, ← Multiset.coe_add, claimed,
      Multiset.coe_singleton, zero_add]
    ac_rfl

theorem counted_move (hmove : Move h bucket us w b w' b') :
    (↑(List.range' 1 b'.done) + (counted w + ↑(b.reported.map Prod.fst)) : Multiset Nat) =
      ↑(List.range' 1 b.done) + (counted w' + ↑(b'.reported.map Prod.fst)) := by
  cases hmove with
  | claim hu => rfl
  | leave hnone => rfl
  | ask => rfl
  | count =>
    simp only [List.range'_1_concat, ← Multiset.coe_add, counted, Multiset.coe_singleton,
      Nat.add_comm 1]
    ac_rfl
  | report =>
    simp only [List.map_append, List.map_cons, List.map_nil, ← Multiset.coe_add, counted,
      Multiset.coe_singleton, zero_add]
    ac_rfl
  | refuse => rfl

theorem asked_move (hmove : Move h bucket us w b w' b') (hstage : F.Stage bucket us w) :
    (↑b'.log + (F.asked bucket w + ↑(F.accounted bucket us.length b)) : Multiset Request) =
      ↑b.log + (F.asked bucket w' + ↑(F.accounted bucket us.length b')) := by
  cases hmove with
  | claim hu => rfl
  | leave hnone => rfl
  | ask =>
    simp only [← Multiset.coe_add, asked, accounted, ended]
    ac_rfl
  | count =>
    obtain ⟨-, hleft⟩ := hstage
    cases hleft with
    | ended hok => rfl
  | report =>
    simp only [accounted, ended, List.map_append, List.map_cons, List.map_nil,
      List.flatMap_append, List.flatMap_cons, List.flatMap_nil, List.append_nil,
      ← Multiset.coe_add, asked, zero_add]
    ac_rfl
  | refuse =>
    obtain ⟨-, hleft⟩ := hstage
    cases hleft with
    | ended herror =>
      simp only [accounted, ended, List.map_append, List.map_cons, List.map_nil,
        List.flatMap_append, List.flatMap_cons, List.flatMap_nil, List.append_nil,
        ← Multiset.coe_add, asked, zero_add]
      ac_rfl

/-- What holds of a batch at any time. -/
structure Accounts (F : Forecast) (bucket : String) (us : List PendingUpload)
    (I : List (String × ByteArray) → σ → Prop) (c : Crew σ) : Prop where
  stages : ∀ w ∈ c.workers, F.Stage bucket us w
  world : I (Request.puts c.board.log) c.board.world
  /-- Every upload stores one object at most. -/
  room : (Request.puts c.board.log).length + (c.workers.map owed).sum ≤
    min c.board.next us.length
  claimed : c.Balanced (fun b => ↑(us.take b.next)) (fun b => ↑(ended b)) claimed
  counted : c.Balanced (fun b => ↑(List.range' 1 b.done)) (fun b => ↑(b.reported.map Prod.fst))
    counted
  asked : c.Balanced (fun b => ↑b.log) (fun b => ↑(F.accounted bucket us.length b))
    (F.asked bucket)
  reported : ∀ e ∈ c.board.reported, F.attempt e.2 = .ok ()
  refused : ∀ e ∈ c.board.refused, F.attempt e.1 = .error e.2
  /-- A worker leaves only if there is nothing left to claim. -/
  exhausted : .gone ∈ c.workers → us.length ≤ c.board.next

theorem accounts_start {world : σ} (workers : Nat) (hworld : I [] world) :
    F.Accounts bucket us I (.start workers world) where
  stages w hw := by
    rw [List.eq_of_mem_replicate hw]
    trivial
  world := hworld
  room := by simp [Crew.start, owed, Board.start, Request.puts]
  claimed := by simp [Crew.Balanced, Crew.start, Forecast.claimed, Board.start, ended]
  counted := by simp [Crew.Balanced, Crew.start, Forecast.counted, Board.start]
  asked := by simp [Crew.Balanced, Crew.start, Forecast.asked, Board.start, accounted, ended]
  reported e he := by cases he
  refused e he := by cases he
  exhausted hgone := by
    cases List.eq_of_mem_replicate hgone

theorem room_move (hmove : Move h bucket us w b w' b') (hstage : F.Stage bucket us w) :
    (Request.puts b'.log).length + owed w' + min b.next us.length ≤
      (Request.puts b.log).length + owed w + min b'.next us.length := by
  cases hmove with
  | claim hu =>
    have := (List.getElem?_eq_some_iff.1 hu).1
    simp only [owed, Request.puts_nil, List.length_nil]
    omega
  | leave hnone =>
    simp only [owed]
    omega
  | ask =>
    obtain ⟨-, hleft⟩ := hstage
    cases hleft with
    | begun => simp [owed]
    | opened hread => simp [owed]
  | count =>
    simp only [owed]
    omega
  | report => simp [owed, announcement]
  | refuse =>
    simp only [owed]
    omega

/-- What is put on record is put there as foretold. -/
theorem records_move (hmove : Move h bucket us w b w' b') (hstage : F.Stage bucket us w)
    (hreported : ∀ e ∈ b.reported, F.attempt e.2 = .ok ())
    (hrefused : ∀ e ∈ b.refused, F.attempt e.1 = .error e.2) :
    (∀ e ∈ b'.reported, F.attempt e.2 = .ok ()) ∧
      ∀ e ∈ b'.refused, F.attempt e.1 = .error e.2 := by
  cases hmove with
  | report =>
    refine ⟨fun e he => ?_, hrefused⟩
    rcases List.mem_append.1 he with he | he
    · exact hreported e he
    · rw [List.mem_singleton.1 he]
      exact hstage.2
  | refuse =>
    refine ⟨hreported, fun e he => ?_⟩
    rcases List.mem_append.1 he with he | he
    · exact hrefused e he
    · rw [List.mem_singleton.1 he]
      obtain ⟨-, hleft⟩ := hstage
      cases hleft with
      | ended herror => exact herror
  | _ => exact ⟨hreported, hrefused⟩

theorem over_move (hmove : Move h bucket us w b w' b') :
    b.next ≤ b'.next ∧ (w' = .gone → us.length ≤ b'.next) := by
  cases hmove with
  | leave hnone => exact ⟨Nat.le_succ _, fun _ => Nat.le_succ_of_le (List.getElem?_eq_none_iff.1 hnone)⟩
  | claim hu => exact ⟨Nat.le_succ _, fun hgone => by cases hgone⟩
  | _ => exact ⟨Nat.le_refl _, fun hgone => by cases hgone⟩

theorem Accounts.step {c c' : Crew σ} (hF : F.Foretells h bucket us I)
    (hc : F.Accounts bucket us I c) (hstep : Crew.Step h bucket us c c') :
    F.Accounts bucket us I c' := by
  obtain @⟨before, after, w, w', b, b', hmove⟩ := hstep
  have hstage := hc.stages w (by simp)
  have hroom := hc.room
  have hroom' := room_move hmove hstage
  simp only [List.map_append, List.map_cons, List.sum_append, List.sum_cons] at hroom
  obtain ⟨hstage', hworld⟩ := hF.move hmove hstage hc.world (by omega)
  obtain ⟨hreported, hrefused⟩ := records_move hmove hstage hc.reported hc.refused
  obtain ⟨hnext, hover⟩ := over_move hmove
  refine ⟨fun v hv => ?_, hworld, ?_, hc.claimed.move (claimed_move hmove),
    hc.counted.move (counted_move hmove), hc.asked.move (asked_move hmove hstage), hreported,
    hrefused, fun hgone => ?_⟩
  · rcases List.mem_append.1 hv with hv | hv
    · exact hc.stages v (List.mem_append_left _ hv)
    · rcases List.mem_cons.1 hv with rfl | hv
      · exact hstage'
      · exact hc.stages v (List.mem_append_right _ (List.mem_cons_of_mem _ hv))
  · simp only [List.map_append, List.map_cons, List.sum_append, List.sum_cons]
    omega
  · rcases List.mem_append.1 hgone with hgone | hgone
    · exact Nat.le_trans (hc.exhausted (List.mem_append_left _ hgone)) hnext
    · rcases List.mem_cons.1 hgone with hgone | hgone
      · exact hover hgone.symm
      · exact Nat.le_trans
          (hc.exhausted (List.mem_append_right _ (List.mem_cons_of_mem _ hgone))) hnext

theorem Accounts.steps {c c' : Crew σ} {n : Nat} (hF : F.Foretells h bucket us I)
    (hc : F.Accounts bucket us I c) (hsteps : Crew.Steps h bucket us n c c') :
    F.Accounts bucket us I c' := by
  induction hsteps with
  | refl c => exact hc
  | step hsteps hstep ih => exact (ih hc).step hF hstep

/-! ## The end -/

/-- How many moves are left for a worker, not counting what it has yet to claim. -/
def left : Worker → Nat
  | .free => 1
  | .uploading _ asked _ => 5 - asked.length
  | .reporting .. => 2
  | .gone => 0

/-- A bound on the moves that are left. -/
def leftOver (us : List PendingUpload) (c : Crew σ) : Nat :=
  6 * (us.length - c.board.next) + (c.workers.map left).sum

theorem length_requests_le (F : Forecast) (bucket : String) (u : PendingUpload) :
    (F.requests bucket u).length ≤ 2 := by
  unfold requests
  cases F.reads u.path <;> simp [Except.toOption]

theorem left_move (hmove : Move h bucket us w b w' b') (hstage : F.Stage bucket us w) :
    6 * (us.length - b'.next) + left w' < 6 * (us.length - b.next) + left w := by
  -- an upload has ended after two requests at most
  have hended {u : PendingUpload} {asked : List Request} {r : Except Failure Unit}
      (hleft : F.Left bucket u asked (.done r)) : asked.length ≤ 2 := by
    cases hleft with
    | ended hr => exact F.length_requests_le bucket u
  cases hmove with
  | claim hu =>
    have := (List.getElem?_eq_some_iff.1 hu).1
    simp only [left, List.length_nil]
    omega
  | leave hnone =>
    simp only [left]
    omega
  | ask =>
    obtain ⟨-, hleft⟩ := hstage
    cases hleft with
    | begun => simp [left]
    | opened hread => simp [left]
  | count =>
    have := hended hstage.2
    simp only [left]
    omega
  | report => simp [left]
  | refuse =>
    have := hended hstage.2
    simp only [left]
    omega

theorem Accounts.leftOver_steps {c c' : Crew σ} {n : Nat} (hF : F.Foretells h bucket us I)
    (hc : F.Accounts bucket us I c) (hsteps : Crew.Steps h bucket us n c c') :
    n + leftOver us c' ≤ leftOver us c := by
  induction hsteps with
  | refl c => exact Nat.le_of_eq (Nat.zero_add _)
  | step hsteps hstep ih =>
    have hc' := hc.steps hF hsteps
    have hle := ih hc
    obtain @⟨before, after, w, w', b, b', hmove⟩ := hstep
    have hless := left_move hmove (hc'.stages w (by simp))
    simp only [leftOver, List.map_append, List.map_cons, List.sum_append, List.sum_cons] at hle ⊢
    omega

/-- As long as a worker is there, it can do something. -/
theorem Accounts.exists_step {c : Crew σ} (hc : F.Accounts bucket us I c) (h : Handler σ)
    (hunfinished : ¬c.Finished) : ∃ c', Crew.Step h bucket us c c' := by
  simp only [Crew.Finished, not_forall] at hunfinished
  obtain ⟨w, hw, hne⟩ := hunfinished
  have hstage := hc.stages w hw
  obtain ⟨workers, b⟩ := c
  obtain ⟨before, after, rfl⟩ := List.append_of_mem hw
  have hmove : ∃ w' b', Move h bucket us w b w' b' := by
    cases w with
    | free =>
      cases hu : us[b.next]? with
      | none => exact ⟨_, _, .leave hu⟩
      | some u => exact ⟨_, _, .claim hu⟩
    | uploading u asked rest =>
      obtain ⟨-, hleft⟩ := hstage
      cases hleft with
      | begun => exact ⟨_, _, .ask⟩
      | opened hread => exact ⟨_, _, .ask⟩
      | @ended r hr =>
        cases r with
        | ok _ => exact ⟨_, _, .count⟩
        | error e => exact ⟨_, _, .refuse⟩
    | reporting n u => exact ⟨_, _, .report⟩
    | gone => exact absurd rfl hne
  obtain ⟨w', b', hmove⟩ := hmove
  exact ⟨_, .of hmove⟩

/-- What a batch comes to. -/
structure Settles (F : Forecast) (bucket : String) (us : List PendingUpload) (log : List Request)
    (result : Except Failure Unit) : Prop where
  /-- Every upload is attempted once, and each of those that succeed is reported once, with the
  counts from one to their number; nothing else is asked for. -/
  asked : ∃ reported : List (Nat × PendingUpload),
    log.Perm (us.flatMap (F.requests bucket) ++
      reported.map fun e => announcement us.length e.1 e.2) ∧
    (reported.map Prod.fst).Perm (List.range' 1 reported.length) ∧
    (reported.map Prod.snd).Perm (us.filter fun u => (F.attempt u).isOk)
  result : result = F.verdict us

/-- Equal keys name files that read the same. -/
def Consistent (F : Forecast) (us : List PendingUpload) : Prop :=
  ∀ u ∈ us, ∀ v ∈ us, u.key = v.key → F.reads u.path = F.reads v.path

theorem failure?_eq_some {x : UploadFailure} :
    F.failure? u = some x ↔ ∃ e, F.attempt u = .error e ∧ x = ⟨u.key, e.message⟩ := by
  unfold failure?
  cases F.attempt u with
  | ok _ => simp
  | error e => simp [eq_comm]

/-- So what is told of the failures does not depend on their order. -/
theorem verdictOf_eq_of_perm (hconsistent : F.Consistent us) {failures : List UploadFailure}
    (hperm : failures.Perm (us.filterMap F.failure?)) : verdictOf failures = F.verdict us := by
  have hsort : Text.sortWith (fun a b => Text.precedes a.key b.key) failures =
      Text.sortWith (fun a b => Text.precedes a.key b.key) (us.filterMap F.failure?) := by
    refine Text.sortWith_eq_of_perm ?_ ?_ ?_ hperm
    · exact fun a => Text.precedes_irrefl _
    · exact fun a b c => Text.precedes_trans
    intro a ha b hb hab hba
    rw [hperm.mem_iff, List.mem_filterMap] at ha hb
    obtain ⟨u, hu, hfailure⟩ := ha
    obtain ⟨v, hv, hfailure'⟩ := hb
    obtain ⟨e, hattempt, rfl⟩ := failure?_eq_some.1 hfailure
    obtain ⟨e', hattempt', rfl⟩ := failure?_eq_some.1 hfailure'
    have hkey : u.key = v.key := Text.eq_of_not_precedes hab hba
    have hsame : F.attempt u = F.attempt v := by
      rw [attempt, attempt, hkey, hconsistent u hu v hv hkey]
    rw [hattempt, hattempt'] at hsame
    rw [hkey, Except.error.inj hsame]
  unfold verdict verdictOf
  rw [hsort, hperm.isEmpty_eq]

/-- A batch succeeds if all its uploads do. -/
theorem verdict_eq_ok : F.verdict us = .ok () ↔ ∀ u ∈ us, F.attempt u = .ok () := by
  have hnone (u : PendingUpload) : F.failure? u = none ↔ F.attempt u = .ok () := by
    unfold failure?
    cases F.attempt u <;> simp
  simp only [← hnone, ← List.filterMap_eq_nil_iff]
  unfold verdict verdictOf
  cases us.filterMap F.failure? <;> simp

/-- Otherwise it tells exactly the failures, in the order of their keys. -/
theorem verdict_eq_error {failure : Failure} (hverdict : F.verdict us = .error failure) :
    ∃ failures : List UploadFailure, failure = .uploadsFailed failures ∧
      failures.Perm (us.filterMap F.failure?) ∧
      failures.Pairwise fun a b => Text.precedes b.key a.key = false := by
  unfold verdict verdictOf at hverdict
  split at hverdict
  · cases hverdict
  · cases hverdict
    refine ⟨_, rfl, Text.sortWith_perm _ _, Text.sortWith_sorted ?_ ?_ _⟩
    · exact fun a => Text.precedes_irrefl _
    · exact fun a b c => Text.precedes_trans

/-- The uploads on record in the end are those of the batch. -/
theorem Accounts.ended_perm {c : Crew σ} (hc : F.Accounts bucket us I c)
    (hworkers : us ≠ [] → c.workers ≠ []) (hfinished : c.Finished) : us.Perm (ended c.board) := by
  have hall : us.take c.board.next = us := by
    by_cases hempty : us = []
    · rw [hempty, List.take_nil]
    · obtain ⟨w, hw⟩ := List.exists_mem_of_ne_nil _ (hworkers hempty)
      exact List.take_of_length_le (hc.exhausted (hfinished w hw ▸ hw))
  have hclaimed := hc.claimed.finished rfl hfinished
  rw [hall] at hclaimed
  exact Multiset.coe_eq_coe.1 hclaimed

theorem Accounts.settles {c : Crew σ} (hc : F.Accounts bucket us I c)
    (hconsistent : F.Consistent us) (hworkers : us ≠ [] → c.workers ≠ [])
    (hfinished : c.Finished) : F.Settles bucket us c.board.log c.board.result := by
  have hended := hc.ended_perm hworkers hfinished
  have hok : (c.board.reported.map Prod.snd).filter (fun u => (F.attempt u).isOk) =
      c.board.reported.map Prod.snd := by
    refine List.filter_eq_self.2 fun u hu => ?_
    obtain ⟨e, he, rfl⟩ := List.mem_map.1 hu
    rw [hc.reported e he]
    rfl
  have hfailed : (c.board.refused.map Prod.fst).filter (fun u => (F.attempt u).isOk) = [] := by
    refine List.filter_eq_nil_iff.2 fun u hu => ?_
    obtain ⟨e, he, rfl⟩ := List.mem_map.1 hu
    rw [hc.refused e he]
    exact Bool.false_ne_true
  have hcounted : (List.range' 1 c.board.done).Perm (c.board.reported.map Prod.fst) :=
    Multiset.coe_eq_coe.1 (hc.counted.finished rfl hfinished)
  have hdone := hcounted.length_eq
  rw [List.length_range', List.length_map] at hdone
  refine ⟨⟨c.board.reported, ?_, ?_, ?_⟩, ?_⟩
  · have hasked : c.board.log.Perm (F.accounted bucket us.length c.board) :=
      Multiset.coe_eq_coe.1 (hc.asked.finished rfl hfinished)
    exact hasked.trans ((hended.symm.flatMap_right _).append_right _)
  · rw [← hdone]
    exact hcounted.symm
  · have hfilter := hended.filter fun u => (F.attempt u).isOk
    rw [ended, List.filter_append, hok, hfailed, List.append_nil] at hfilter
    exact hfilter.symm
  · refine verdictOf_eq_of_perm hconsistent ?_
    have hfailures := hended.symm.filterMap F.failure?
    have hnone : (c.board.reported.map Prod.snd).filterMap F.failure? = [] := by
      refine List.filterMap_eq_nil_iff.2 fun u hu => ?_
      obtain ⟨e, he, rfl⟩ := List.mem_map.1 hu
      rw [failure?, hc.reported e he]
    have hsome : (c.board.refused.map Prod.fst).filterMap F.failure? =
        c.board.refused.map fun e => ⟨e.1.key, e.2.message⟩ := by
      rw [List.filterMap_map, ← List.filterMap_eq_map]
      refine List.filterMap_congr fun e he => ?_
      exact failure?_eq_some.2 ⟨e.2, hc.refused e he, rfl⟩
    rwa [ended, List.filterMap_append, hnone, hsome, List.nil_append] at hfailures

/-! ## One upload after the other -/

theorem Foretells.uploadFile (hF : F.Foretells h bucket us I) (hu : u ∈ us)
    {puts : List (String × ByteArray)} {world : σ} (hworld : I puts world)
    (hroom : puts.length < us.length) :
    ∃ world', Program.run h (uploadFile bucket u).run world = (some (F.attempt u), world') ∧
      I (puts ++ F.writes u) world' ∧
      (Artifacts.uploadFile bucket u).run.asked h world = F.requests bucket u := by
  obtain ⟨hanswer, hnext⟩ := hF.read _ _ hworld u hu
  rw [uploadFile_eq, Program.run, Program.asked_ask, hanswer]
  generalize (h.answer (.onMachine (.read u.path)) world).2 = world' at hnext ⊢
  cases hread : F.reads u.path with
  | error e =>
    refine ⟨world', ?_, ?_, ?_⟩
    · rw [attempt_of_error hread]
      rfl
    · rw [writes, hread]
      exact (List.append_nil puts).symm ▸ hnext
    · rw [requests_of_error hread]
      rfl
  | ok body =>
    obtain ⟨hstored, hafter⟩ := hF.put _ _ hnext hroom u.key body
    rw [afterRead, uploadBytes_eq, Program.run, Program.asked_ask, hstored]
    refine ⟨(h.answer (.store (.put bucket u.key body)) world').2, ?_, ?_, ?_⟩
    · rw [attempt_of_read hread]
      rfl
    · rw [writes, hread]
      exact hafter
    · rw [requests_of_read hread]
      rfl

/-- The reports of uploads that succeed one after the other. -/
def reports (F : Forecast) (us : List PendingUpload) (done : Nat) : List (Nat × PendingUpload) :=
  ((us.filter fun u => (F.attempt u).isOk).zipIdx (done + 1)).map Prod.swap

theorem reports_cons_of_ok (hok : F.attempt u = .ok ()) (us : List PendingUpload) (done : Nat) :
    F.reports (u :: us) done = (done + 1, u) :: F.reports us (done + 1) := by
  rw [reports, List.filter_cons_of_pos (by rw [hok]; rfl), List.zipIdx_cons]
  rfl

theorem reports_cons_of_error {e : Failure} (herror : F.attempt u = .error e)
    (us : List PendingUpload) (done : Nat) : F.reports (u :: us) done = F.reports us done := by
  rw [reports, List.filter_cons_of_neg (by rw [herror]; exact Bool.false_ne_true)]
  rfl

theorem Foretells.attemptAll (hF : F.Foretells h bucket us I) (total : Nat)
    (hsub : ∀ u ∈ us', u ∈ us) (s : BatchState) {puts : List (String × ByteArray)} {world : σ}
    (hworld : I puts world) (hroom : puts.length + us'.length ≤ us.length) :
    ∃ world' done, Program.run h (attemptAll bucket total us' s) world =
        (some ⟨done, s.failures ++ us'.filterMap F.failure?⟩, world') ∧
      I (puts ++ us'.flatMap F.writes) world' ∧
      ((Artifacts.attemptAll bucket total us' s).asked h world).Perm
        (us'.flatMap (F.requests bucket) ++
          (F.reports us' s.done).map fun e => announcement total e.1 e.2) := by
  induction us' generalizing s puts world with
  | nil =>
    refine ⟨world, s.done, ?_, ?_, .refl _⟩
    · rw [List.filterMap_nil, List.append_nil]
      rfl
    · rw [List.flatMap_nil, List.append_nil]
      exact hworld
  | cons u us' ih =>
    rw [List.length_cons] at hroom
    have hlength : (F.writes u).length ≤ 1 := by
      unfold writes
      cases F.reads u.path <;> simp [Except.toOption]
    obtain ⟨world₁, hrun, hworld₁, hasked⟩ :=
      hF.uploadFile (hsub u List.mem_cons_self) hworld (by omega)
    have hroom₁ : (puts ++ F.writes u).length + us'.length ≤ us.length := by
      rw [List.length_append]
      omega
    have hsub' : ∀ v ∈ us', v ∈ us := fun v hv => hsub v (List.mem_cons_of_mem _ hv)
    rw [Artifacts.attemptAll, Program.run_bind_of_some hrun, Program.asked_bind hrun, hasked,
      List.filterMap_cons, List.flatMap_cons, List.flatMap_cons, ← List.append_assoc puts, failure?]
    cases hattempt : F.attempt u with
    | ok _ =>
      obtain ⟨world', done, hrest, hworld', hmore⟩ :=
        ih hsub' { s with done := s.done + 1 } (hF.control _ _ hworld₁
          (.emit (.artifactUploaded (s.done + 1) total u.key))) hroom₁
      refine ⟨world', done, hrest, hworld', ?_⟩
      rw [reports_cons_of_ok hattempt, List.map_cons, List.append_assoc]
      refine .append_left _ ?_
      exact (hmore.cons (announcement total (s.done + 1) u)).trans List.perm_middle.symm
    | error e =>
      obtain ⟨world', done, hrest, hworld', hmore⟩ :=
        ih hsub' { s with failures := s.failures ++ [⟨u.key, e.message⟩] } hworld₁ hroom₁
      refine ⟨world', done, ?_, hworld', ?_⟩
      · rw [List.append_assoc] at hrest
        exact hrest
      · rw [reports_cons_of_error hattempt, List.append_assoc]
        exact hmore.append_left _

theorem map_fst_reports (us : List PendingUpload) (done : Nat) :
    (F.reports us done).map Prod.fst = List.range' (done + 1) (F.reports us done).length := by
  rw [reports, List.map_map, List.length_map, List.length_zipIdx]
  exact List.zipIdx_map_snd ..

theorem map_snd_reports (us : List PendingUpload) (done : Nat) :
    (F.reports us done).map Prod.snd = us.filter fun u => (F.attempt u).isOk := by
  rw [reports, List.map_map]
  exact List.zipIdx_map_fst ..

/-- A batch asks for an order, attempts the uploads in it, and tells what failed. -/
theorem uploadAll_eq (bucket : String) (workers : Nat) (us : List PendingUpload) :
    (uploadAll bucket workers us).run =
      .ask (.control (.schedule us.length (min workers us.length))) fun order =>
        (attemptAll bucket us.length (order.arrange us) ⟨0, []⟩).bind fun s =>
          .done (verdictOf s.failures) := by
  refine congrArg (Program.ask _) (funext fun order => ?_)
  show Program.bind (Program.bind (attemptAll bucket us.length (order.arrange us) ⟨0, []⟩) _) _ = _
  refine (Program.bind_assoc ..).trans (congrArg _ (funext fun s => ?_))
  unfold verdictOf
  show (if !s.failures.isEmpty then _ else _ : Run Unit).run = _
  cases s.failures.isEmpty with
  | true => rfl
  | false => rfl

/-- What is stored does not depend on the order either, but for its own order. -/
theorem Settles.puts_perm {log : List Request} {result : Except Failure Unit}
    (hsettles : F.Settles bucket us log result) :
    (Request.puts log).Perm (us.flatMap F.writes) := by
  obtain ⟨⟨reported, hlog, -⟩, -⟩ := hsettles
  have hreports : Request.puts (reported.map fun e => announcement us.length e.1 e.2) = [] := by
    refine List.filterMap_eq_nil_iff.2 fun r hr => ?_
    obtain ⟨e, -, rfl⟩ := List.mem_map.1 hr
    rfl
  have hrequests : Request.puts (us.flatMap (F.requests bucket)) = us.flatMap F.writes := by
    rw [Request.puts, List.filterMap_flatMap]
    exact congrArg (List.flatMap · us) (funext fun u => F.puts_requests bucket u)
  have hperm := hlog.filterMap Request.stored?
  rwa [← Request.puts, ← Request.puts, Request.puts_append, hreports, hrequests,
    List.append_nil] at hperm

/-- Workers side by side come to the end of a batch, and to the same end in whatever order they
move. -/
theorem Foretells.crew (hF : F.Foretells h bucket us I) (hconsistent : F.Consistent us)
    {workers : Nat} (hworkers : us ≠ [] → workers ≠ 0) {world : σ} (hworld : I [] world) {n : Nat}
    {c : Crew σ} (hsteps : Crew.Steps h bucket us n (.start workers world) c) :
    n ≤ 6 * us.length + workers ∧ (¬c.Finished → ∃ c', Crew.Step h bucket us c c') ∧
      (c.Finished → F.Settles bucket us c.board.log c.board.result ∧
        I (Request.puts c.board.log) c.board.world) := by
  have hstart : F.Accounts bucket us I (.start workers world) := accounts_start workers hworld
  have hc := hstart.steps hF hsteps
  refine ⟨?_, hc.exists_step h, fun hfinished => ⟨hc.settles hconsistent ?_ hfinished, hc.world⟩⟩
  · have hleft := hstart.leftOver_steps hF hsteps
    have hall : leftOver us (.start workers world) = 6 * us.length + workers := by
      simp [leftOver, Crew.start, Board.start, left]
    omega
  · have hlength : c.workers.length = workers := by
      rw [Crew.length_workers_steps hsteps]
      exact List.length_replicate
    intro hne hnil
    exact hworkers hne (by rw [← hlength, hnil]; rfl)

/-- Uploading a batch comes to the same, whatever order it is told to take. -/
theorem Foretells.uploadAll (hF : F.Foretells h bucket us I) (hconsistent : F.Consistent us)
    (workers : Nat) {world : σ} (hworld : I [] world) :
    ∃ world' puts log, (uploadAll bucket workers us).outcome h world =
        (some (F.verdict us), world') ∧
      (Artifacts.uploadAll bucket workers us).run.asked h world =
        .control (.schedule us.length (min workers us.length)) :: log ∧
      F.Settles bucket us log (F.verdict us) ∧ I puts world' ∧ puts.Perm (us.flatMap F.writes) := by
  have hcontrol := hF.control _ _ hworld (.schedule us.length (min workers us.length))
  rw [Run.outcome, uploadAll_eq, Program.run, Program.asked_ask]
  generalize h.answer (.control (.schedule us.length (min workers us.length))) world =
    ordered at hcontrol ⊢
  obtain ⟨order, world₁⟩ := ordered
  have hperm := order.arrange_perm us
  obtain ⟨world', done, hrun, hworld', hasked⟩ := hF.attemptAll us.length
    (fun u hu => hperm.mem_iff.1 hu) ⟨0, []⟩ hcontrol (by rw [hperm.length_eq]; simp)
  rw [Program.run_bind_of_some hrun, Program.asked_bind hrun]
  refine ⟨world', _, _, ?_, rfl, ⟨⟨F.reports (order.arrange us) 0, ?_, ?_, ?_⟩, rfl⟩, hworld', ?_⟩
  · have hverdict : verdictOf ([] ++ (order.arrange us).filterMap F.failure?) = F.verdict us :=
      verdictOf_eq_of_perm hconsistent (hperm.filterMap _)
    exact congrArg (fun r => (some r, world')) hverdict
  · refine List.Perm.trans ?_ ((hperm.flatMap_right _).append_right _)
    exact (List.append_nil _).symm ▸ hasked
  · rw [map_fst_reports]
  · rw [map_snd_reports]
    exact hperm.filter _
  · exact hperm.flatMap_right _

end Forecast

end Artifacts

end Rollout
