import MinorityViewport.Basic
import Mathlib.Data.Int.CardIntervalMod

/-!
# The threads of the server

`Networks/IOServicePool.cpp` and `Networks/Server.cpp`.  Every socket of the
server belongs to an `io_service`, and every `io_service` has one thread.  The
pool hands its services out in turn: the first goes to the signals, the next
to the acceptor, and one more to every connection that waits to be accepted,
whether the accept succeeds or not.

`accepts_of_run` says which service a connection has, and how evenly the
connections are spread over the threads.
-/

namespace MinorityViewport.Http

structure IoServicePool where
  size : Nat
  nextIoService : Nat
  next_lt : nextIoService < size

namespace IoServicePool

def new (poolSize : Nat) : Except Fault IoServicePool :=
  if h : poolSize = 0 then .error (.runtimeError "io_service_pool size is 0")
  else .ok ⟨poolSize, 0, Nat.pos_of_ne_zero h⟩

/-- `get_io_service`: the number of the service, and the pool after it. -/
def getIoService (p : IoServicePool) : Nat × IoServicePool :=
  (p.nextIoService,
    if h : p.nextIoService + 1 = p.size then ⟨p.size, 0, Nat.zero_lt_of_lt p.next_lt⟩
    else ⟨p.size, p.nextIoService + 1, Nat.lt_of_le_of_ne p.next_lt h⟩)

end IoServicePool

/-- The sockets of the server, each as the number of its service. -/
structure Sockets where
  pool : IoServicePool
  signals : Nat
  acceptor : Nat
  newConnection : Nat
  /-- The connections that have been started, the oldest first. -/
  started : List Nat

namespace Sockets

def startAccept (s : Sockets) : Sockets :=
  let (service, pool) := s.pool.getIoService
  { s with pool := pool, newConnection := service }

/-- `handle_accept`, with `true` for no error. -/
def handleAccept (s : Sockets) (accepted : Bool) : Sockets :=
  startAccept (if accepted then { s with started := s.started ++ [s.newConnection] } else s)

/-- The constructor of the server, behind that of its pool. -/
def ofPool (pool : IoServicePool) : Sockets :=
  let signals := pool.getIoService
  let acceptor := signals.2.getIoService
  startAccept ⟨acceptor.2, signals.1, acceptor.1, 0, []⟩

def new (ioServicePoolSize : Nat) : Except Fault Sockets :=
  (IoServicePool.new ioServicePoolSize).map ofPool

/-- The state after some accepts have completed. -/
def run (s : Sockets) (accepts : List Bool) : Sockets := accepts.foldl handleAccept s

/-! ## Services in turn -/

/-- The sockets after `n` accepts have been started beyond the first one. -/
structure InTurn (poolSize n : Nat) (started : List Nat) (s : Sockets) : Prop where
  size : s.pool.size = poolSize
  signals : s.signals = 0
  acceptor : s.acceptor = 1 % poolSize
  newConnection : s.newConnection = (n + 2) % poolSize
  next : s.pool.nextIoService = (n + 3) % poolSize
  started_eq : s.started = started

/-- The services of the connections that were started, when accept `n` is the
first in the list. -/
def startedServices (poolSize : Nat) : Nat → List Bool → List Nat
  | _, [] => []
  | n, true :: accepts => (n + 2) % poolSize :: startedServices poolSize (n + 1) accepts
  | n, false :: accepts => startedServices poolSize (n + 1) accepts

theorem getIoService_spec (p : IoServicePool) :
    p.getIoService.1 = p.nextIoService ∧ p.getIoService.2.size = p.size ∧
      p.getIoService.2.nextIoService = (p.nextIoService + 1) % p.size := by
  have hlt := p.next_lt
  unfold IoServicePool.getIoService
  refine ⟨rfl, ?_, ?_⟩
  · dsimp only
    split_ifs <;> rfl
  · dsimp only
    split_ifs with hlast
    · rw [hlast, Nat.mod_self]
    · exact (Nat.mod_eq_of_lt (Nat.lt_of_le_of_ne hlt hlast)).symm

theorem InTurn.startAccept {poolSize n : Nat} {started : List Nat} {s : Sockets}
    (h : InTurn poolSize n started s) : InTurn poolSize (n + 1) started s.startAccept := by
  obtain ⟨hservice, hsize, hnext⟩ := getIoService_spec s.pool
  refine ⟨hsize.trans h.size, h.signals, h.acceptor, hservice.trans h.next, ?_, h.started_eq⟩
  show s.pool.getIoService.2.nextIoService = _
  rw [hnext, h.next, h.size, Nat.mod_add_mod]

theorem InTurn.handleAccept {poolSize n : Nat} {started : List Nat} {s : Sockets}
    (h : InTurn poolSize n started s) (accepted : Bool) :
    InTurn poolSize (n + 1) (started ++ startedServices poolSize n [accepted])
      (s.handleAccept accepted) := by
  cases accepted with
  | true =>
    refine InTurn.startAccept ⟨h.size, h.signals, h.acceptor, h.newConnection, h.next, ?_⟩
    show s.started ++ [s.newConnection] = started ++ [(n + 2) % poolSize]
    rw [h.started_eq, h.newConnection]
  | false =>
    rw [startedServices, startedServices, List.append_nil]
    exact h.startAccept

theorem startedServices_append (poolSize n : Nat) (accepts accepts' : List Bool) :
    startedServices poolSize n (accepts ++ accepts') =
      startedServices poolSize n accepts ++
        startedServices poolSize (n + accepts.length) accepts' := by
  induction accepts generalizing n with
  | nil => rfl
  | cons a accepts ih =>
    have hlen : n + (a :: accepts).length = n + 1 + accepts.length := by
      rw [List.length_cons]
      omega
    rw [hlen, List.cons_append]
    cases a with
    | true => rw [startedServices, startedServices, ih, List.cons_append]
    | false => rw [startedServices, startedServices, ih]

theorem InTurn.run {poolSize n : Nat} {started : List Nat} {s : Sockets}
    (h : InTurn poolSize n started s) (accepts : List Bool) :
    InTurn poolSize (n + accepts.length) (started ++ startedServices poolSize n accepts)
      (s.run accepts) := by
  induction accepts generalizing n started s with
  | nil =>
    rw [startedServices, List.append_nil]
    exact h
  | cons a accepts ih =>
    have hrest := ih (h.handleAccept a)
    have hsplit := startedServices_append poolSize n [a] accepts
    have hlen : n + (a :: accepts).length = n + 1 + accepts.length := by
      rw [List.length_cons]
      omega
    rw [hlen]
    rw [List.append_assoc] at hrest
    rw [show a :: accepts = [a] ++ accepts from rfl, hsplit]
    exact hrest

theorem inTurn_new {poolSize : Nat} {s : Sockets} (h : new poolSize = .ok s) :
    0 < poolSize ∧ InTurn poolSize 0 [] s := by
  unfold new IoServicePool.new at h
  by_cases hzero : poolSize = 0
  · rw [dif_pos hzero] at h
    cases h
  · rw [dif_neg hzero] at h
    have hpos := Nat.pos_of_ne_zero hzero
    cases h
    let pool : IoServicePool := ⟨poolSize, 0, hpos⟩
    obtain ⟨hsignals, hsize, hnext⟩ := getIoService_spec pool
    obtain ⟨hacceptor, hsize', hnext'⟩ := getIoService_spec pool.getIoService.2
    obtain ⟨hconnection, hsize'', hnext''⟩ :=
      getIoService_spec pool.getIoService.2.getIoService.2
    have hsizes : pool.getIoService.2.getIoService.2.size = poolSize := hsize'.trans hsize
    refine ⟨hpos, hsize''.trans hsizes, hsignals, ?_, ?_, ?_, rfl⟩
    · exact hacceptor.trans hnext
    · refine hconnection.trans (hnext'.trans ?_)
      rw [hnext, hsize]
      exact Nat.mod_add_mod 1 poolSize 1
    · refine hnext''.trans ?_
      rw [hsizes, hnext', hnext, hsize]
      show (((0 + 1) % poolSize + 1) % poolSize + 1) % poolSize = (0 + 3) % poolSize
      rw [Nat.mod_add_mod, Nat.add_assoc, Nat.mod_add_mod]

/-! ## Loads -/

/-- The turns of a service among `k` accepts that succeed. -/
theorem count_replicate (poolSize service n k : Nat) :
    (startedServices poolSize n (List.replicate k true)).count service =
      Nat.count (fun i => (i + n + 2) % poolSize = service) k := by
  induction k generalizing n with
  | zero => rfl
  | succ k ih =>
    have hshift : ∀ i, (i + 1 + n + 2) % poolSize = (i + (n + 1) + 2) % poolSize := by
      intro i
      rw [Nat.add_assoc i 1 n, Nat.add_comm 1 n]
    rw [List.replicate_succ, startedServices, List.count_cons, ih, Nat.count_succ']
    simp only [hshift, Nat.zero_add, beq_iff_eq]

/-- In turn, each service has its share, or one more. -/
theorem count_share {poolSize service : Nat} (hservice : service < poolSize) (n k : Nat) :
    (startedServices poolSize n (List.replicate k true)).count service = k / poolSize ∨
      (startedServices poolSize n (List.replicate k true)).count service = k / poolSize + 1 := by
  have hpos : 0 < poolSize := Nat.zero_lt_of_lt hservice
  let v := service + (n + 2) * (poolSize - 1)
  have hv : v + (n + 2) ≡ service [MOD poolSize] := by
    have hsum : v + (n + 2) = service + (n + 2) * poolSize := by
      obtain ⟨q, rfl⟩ : ∃ q, poolSize = q + 1 := ⟨poolSize - 1, by omega⟩
      show service + (n + 2) * q + (n + 2) = service + (n + 2) * (q + 1)
      ring
    rw [hsum]
    exact (Nat.modEq_zero_iff_dvd.mpr (Nat.dvd_mul_left _ _)).add_left service
  have hiff : ∀ i, (i + n + 2) % poolSize = service ↔ i ≡ v [MOD poolSize] := by
    intro i
    rw [Nat.add_assoc]
    constructor
    · intro hi
      refine Nat.ModEq.add_right_cancel' (n + 2) (Nat.ModEq.trans ?_ hv.symm)
      rw [Nat.ModEq, hi, Nat.mod_eq_of_lt hservice]
    · intro hi
      have hsum := (hi.add_right (n + 2)).trans hv
      rwa [Nat.ModEq, Nat.mod_eq_of_lt hservice] at hsum
  rw [count_replicate]
  simp only [hiff]
  rw [Nat.count_modEq_card k hpos v]
  split_ifs
  · exact Or.inr rfl
  · exact Or.inl rfl

/-- An accept that fails takes one turn of one service. -/
theorem count_started (poolSize service n : Nat) (accepts : List Bool) :
    (startedServices poolSize n accepts).count service ≤
        (startedServices poolSize n (List.replicate accepts.length true)).count service ∧
      (startedServices poolSize n (List.replicate accepts.length true)).count service ≤
        (startedServices poolSize n accepts).count service + accepts.count false := by
  induction accepts generalizing n with
  | nil => exact ⟨le_rfl, le_rfl⟩
  | cons a accepts ih =>
    obtain ⟨hle, hge⟩ := ih (n + 1)
    rw [List.length_cons, List.replicate_succ, startedServices]
    cases a with
    | true =>
      rw [startedServices, List.count_cons, List.count_cons,
        List.count_cons_of_ne (by decide)]
      omega
    | false =>
      rw [startedServices, List.count_cons, List.count_cons_self]
      split_ifs <;> omega

/-- The services of the sockets in every run.  The loads of two threads differ
by one at most, and by one more for every accept that has failed. -/
theorem accepts_of_run (poolSize : Nat) (s : Sockets) (h : new poolSize = .ok s)
    (accepts : List Bool) :
    (s.run accepts).signals = 0 ∧ (s.run accepts).acceptor = 1 % poolSize ∧
      (s.run accepts).started = startedServices poolSize 0 accepts ∧
      ∀ service < poolSize, ∀ service' < poolSize,
        (s.run accepts).started.count service ≤
          (s.run accepts).started.count service' + 1 + accepts.count false := by
  have hrun := (inTurn_new h).2.run accepts
  rw [List.nil_append] at hrun
  refine ⟨hrun.signals, hrun.acceptor, hrun.started_eq, ?_⟩
  intro service hservice service' hservice'
  rw [hrun.started_eq]
  have hle := (count_started poolSize service 0 accepts).1
  have hge := (count_started poolSize service' 0 accepts).2
  have hshare := count_share hservice 0 accepts.length
  have hshare' := count_share hservice' 0 accepts.length
  omega

/-- The five threads of the server, with an accept that fails. -/
theorem accepts_of_run_five :
    ∃ s, new 5 = .ok s ∧ (s.run [true, false, true]).started = [2, 4] :=
  ⟨_, rfl, (accepts_of_run 5 _ rfl [true, false, true]).2.2.1⟩

end Sockets

end MinorityViewport.Http
