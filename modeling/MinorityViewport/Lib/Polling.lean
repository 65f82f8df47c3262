import Mathlib.Data.List.Pairwise
import Mathlib.Order.Basic

/-!
# Polling

A client that asks a server again and again, and waits for one answer at a
time: a new request takes the place of the last one, whose answer is dropped
when it comes.  The server takes the requests in any order, and answers may
overtake each other or get lost.

`Run.sound` is what the client can rely on.  The answers that it shows are in
the order of its requests, and they come from later and later states of the
server.
-/

namespace Polling

variable {Q R S : Type}

/-- An answer, with the number of its request and the number of the state that
the server was in. -/
structure Answer (R : Type) where
  number : Nat
  time : Nat
  reply : R

structure State (Q R S : Type) where
  asked : List Q
  waiting : Option Nat
  answered : List (Answer R)
  shown : List (Answer R)
  visited : List S
  server : S

namespace State

/-- Nothing has been asked yet. -/
def start (server : S) : State Q R S := ⟨[], none, [], [], [], server⟩

/-- All states of the server, in order. -/
def states (s : State Q R S) : List S := s.visited ++ [s.server]

def move (s : State Q R S) (server : S) : State Q R S :=
  { s with visited := s.visited ++ [s.server], server := server }

def send (s : State Q R S) (request : Q) : State Q R S :=
  { s with asked := s.asked ++ [request], waiting := some s.asked.length }

def answer (s : State Q R S) (number : Nat) (reply : R) (server : S) : State Q R S :=
  { s.move server with answered := s.answered ++ [⟨number, s.visited.length, reply⟩] }

def display (s : State Q R S) (a : Answer R) : State Q R S :=
  { s with waiting := none, shown := s.shown ++ [a] }

def giveUp (s : State Q R S) : State Q R S := { s with waiting := none }

theorem length_states (s : State Q R S) : s.states.length = s.visited.length + 1 :=
  List.length_append

theorem states_visited (s : State Q R S) : s.states[s.visited.length]? = some s.server :=
  List.getElem?_concat_length

end State

section Runs

variable (serves : S → Q → R → S → Prop) (moves : S → S → Prop)

/-- A step of the client, or of the server. -/
inductive Step (s : State Q R S) : State Q R S → Prop
  | send (request : Q) : Step s (s.send request)
  | answer {number : Nat} {request : Q} {reply : R} {server : S}
      (asked : s.asked[number]? = some request)
      (served : serves s.server request reply server) : Step s (s.answer number reply server)
  | move {server : S} (moved : moves s.server server) : Step s (s.move server)
  | display {a : Answer R} (arrived : a ∈ s.answered) (awaited : s.waiting = some a.number) :
      Step s (s.display a)
  | giveUp : Step s s.giveUp

inductive Run (s₀ : State Q R S) : State Q R S → Prop
  | refl : Run s₀ s₀
  | step {s s' : State Q R S} (run : Run s₀ s) (step : Step serves moves s s') : Run s₀ s'

/-- The server has made an answer for its request. -/
def Made (s : State Q R S) (a : Answer R) : Prop :=
  ∃ request before after, s.asked[a.number]? = some request ∧
    s.states[a.time]? = some before ∧ s.states[a.time + 1]? = some after ∧
    serves before request a.reply after

/-- One answer is for a later request than another, and from a later state. -/
def Later (a b : Answer R) : Prop := a.number < b.number ∧ a.time < b.time

/-- What holds in every run. -/
structure Sound (s : State Q R S) : Prop where
  made : ∀ a ∈ s.answered, Made serves s a
  arrived : ∀ a ∈ s.shown, a ∈ s.answered
  latest : ∀ n, s.waiting = some n → n + 1 = s.asked.length ∧ ∀ a ∈ s.shown, a.number < n
  fresh : ∀ a ∈ s.answered, s.waiting = some a.number → ∀ b ∈ s.shown, b.time < a.time
  ordered : s.shown.Pairwise Later

end Runs

variable {serves : S → Q → R → S → Prop} {moves : S → S → Prop} {s s' : State Q R S}

theorem Made.number_lt {a : Answer R} (h : Made serves s a) : a.number < s.asked.length := by
  obtain ⟨request, _, _, hasked, _⟩ := h
  exact (List.getElem?_eq_some_iff.mp hasked).1

theorem Made.time_lt {a : Answer R} (h : Made serves s a) : a.time < s.visited.length := by
  obtain ⟨_, _, after, _, _, hafter, _⟩ := h
  have hlt := (List.getElem?_eq_some_iff.mp hafter).1
  rw [State.length_states] at hlt
  omega

/-- Requests and states that are added do not change the ones before. -/
theorem Made.mono {a : Answer R} (h : Made serves s a) (hasked : s.asked <+: s'.asked)
    (hstates : s.states <+: s'.states) : Made serves s' a := by
  obtain ⟨request, before, after, hrequest, hbefore, hafter, hserves⟩ := h
  have hkeep : ∀ {α : Type} {xs ys : List α} {i : Nat} {x : α}, xs <+: ys → xs[i]? = some x →
      ys[i]? = some x := by
    rintro α xs _ i x ⟨rest, rfl⟩ hx
    rw [List.getElem?_append_left (List.getElem?_eq_some_iff.mp hx).1, hx]
  exact ⟨request, before, after, hkeep hasked hrequest, hkeep hstates hbefore,
    hkeep hstates hafter, hserves⟩

theorem Sound.start (server : S) : Sound serves (.start server : State Q R S) where
  made _ h := absurd h List.not_mem_nil
  arrived _ h := absurd h List.not_mem_nil
  latest _ h := nomatch h
  fresh _ h := absurd h List.not_mem_nil
  ordered := .nil

/-! ## The steps -/

theorem Sound.send (h : Sound serves s) (request : Q) : Sound serves (s.send request) where
  made a ha := (h.made a ha).mono (List.prefix_append _ _) (List.prefix_refl _)
  arrived := h.arrived
  latest n hn := by
    obtain rfl := Option.some.inj hn
    refine ⟨?_, fun a ha => (h.made a (h.arrived a ha)).number_lt⟩
    show s.asked.length + 1 = (s.asked ++ [request]).length
    rw [List.length_append, List.length_singleton]
  fresh a ha hn := by
    -- no answer there is to a request that has just been sent
    have hlt := (h.made a ha).number_lt
    have heq := Option.some.inj hn
    omega
  ordered := h.ordered

theorem Sound.move (h : Sound serves s) (server : S) : Sound serves (s.move server) where
  made a ha := (h.made a ha).mono (List.prefix_refl _) (List.prefix_append _ _)
  arrived := h.arrived
  latest := h.latest
  fresh := h.fresh
  ordered := h.ordered

theorem Sound.answer (h : Sound serves s) {number : Nat} {request : Q} {reply : R} {server : S}
    (hasked : s.asked[number]? = some request) (hserved : serves s.server request reply server) :
    Sound serves (s.answer number reply server) where
  made a ha := by
    rcases List.mem_append.mp ha with hold | hnew
    · exact (h.made a hold).mono (List.prefix_refl _) (List.prefix_append _ _)
    · obtain rfl := List.mem_singleton.mp hnew
      refine ⟨request, s.server, server, hasked, ?_, ?_, hserved⟩
      · show (s.states ++ [server])[s.visited.length]? = some s.server
        rw [List.getElem?_append_left (by rw [State.length_states]; omega), s.states_visited]
      · show (s.states ++ [server])[s.visited.length + 1]? = some server
        rw [← s.length_states]
        exact List.getElem?_concat_length
  arrived a ha := List.mem_append_left _ (h.arrived a ha)
  latest := h.latest
  fresh a ha hn b hb := by
    rcases List.mem_append.mp ha with hold | hnew
    · exact h.fresh a hold hn b hb
    · obtain rfl := List.mem_singleton.mp hnew
      exact (h.made b (h.arrived b hb)).time_lt
  ordered := h.ordered

theorem Sound.display {a : Answer R} (h : Sound serves s) (harrived : a ∈ s.answered)
    (hawaited : s.waiting = some a.number) : Sound serves (s.display a) where
  made := h.made
  arrived b hb := by
    rcases List.mem_append.mp hb with hold | hnew
    · exact h.arrived b hold
    · obtain rfl := List.mem_singleton.mp hnew
      exact harrived
  latest _ hn := nomatch hn
  fresh _ _ hn := nomatch hn
  ordered := by
    refine List.pairwise_append.mpr ⟨h.ordered, List.pairwise_singleton _ _, ?_⟩
    intro b hb c hc
    obtain rfl := List.mem_singleton.mp hc
    exact ⟨(h.latest _ hawaited).2 b hb, h.fresh _ harrived hawaited b hb⟩

theorem Sound.giveUp (h : Sound serves s) : Sound serves s.giveUp where
  made := h.made
  arrived := h.arrived
  latest _ hn := nomatch hn
  fresh _ _ hn := nomatch hn
  ordered := h.ordered

theorem Sound.step (h : Sound serves s) (hstep : Step serves moves s s') : Sound serves s' := by
  cases hstep with
  | send request => exact h.send request
  | answer hasked hserved => exact h.answer hasked hserved
  | move => exact h.move _
  | display harrived hawaited => exact h.display harrived hawaited
  | giveUp => exact h.giveUp

theorem Run.sound {server : S} (h : Run serves moves (.start server) s) : Sound serves s := by
  induction h with
  | refl => exact .start server
  | step _ hstep ih => exact ih.step hstep

end Polling
