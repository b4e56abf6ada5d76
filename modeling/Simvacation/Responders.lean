import Mathlib.Data.List.Basic

/-!
Responders that answer messages with messages. A network holds the state of all
responders and the messages sent so far, each with the number of answers that
led to it. When answers are recognised as such, and a recognised message is
neither answered nor noticed, no run contains an answer to an answer.
-/

namespace Simvacation.Responders

/-- A message and how many answers lie between it and a posted message. -/
structure Message (μ : Type*) where
  content : μ
  depth : ℕ
  deriving DecidableEq

structure Network (σ μ : Type*) where
  state : σ
  messages : List (Message μ)

/-- A message may be delivered any number of times, in any order. -/
inductive Event (δ μ : Type*) where
  | post (content : μ)
  | deliver (d : δ) (i : ℕ)

variable {σ δ μ : Type*}

namespace Network

variable (react : δ → μ → σ → σ × Option μ)

/-- One delivery: the responder changes the state and may answer. -/
def receive (d : δ) (m : Message μ) (net : Network σ μ) : Network σ μ where
  state := (react d m.content net.state).1
  messages := net.messages ++
    (react d m.content net.state).2.toList.map fun answer => ⟨answer, m.depth + 1⟩

def step (net : Network σ μ) : Event δ μ → Network σ μ
  | .post content => { net with messages := net.messages ++ [⟨content, 0⟩] }
  | .deliver d i =>
    match net.messages[i]? with
    | some m => net.receive react d m
    | none => net

def run (net : Network σ μ) (events : List (Event δ μ)) : Network σ μ :=
  events.foldl (step react) net

/-- Whether an event hands over an answer. -/
def answers (net : Network σ μ) : Event δ μ → Bool
  | .post _ => false
  | .deliver _ i => (net.messages[i]?).any fun m => decide (0 < m.depth)

/-- The run without the deliveries of answers. -/
def unanswered (net : Network σ μ) : List (Event δ μ) → List (Event δ μ)
  | [] => []
  | e :: events =>
    (if net.answers e then [] else [e]) ++ unanswered (net.step react e) events

/-- Every delivery of a run is a proper one of the message it delivers. -/
def Valid (Proper : δ → Message μ → Prop) (net : Network σ μ) : List (Event δ μ) → Prop
  | [] => True
  | e :: events =>
    (∀ d i, e = .deliver d i → ∀ m ∈ net.messages[i]?, Proper d m) ∧
      Valid Proper (net.step react e) events

end Network

/-- What the responders promise: their answers are recognised, and a recognised
answer changes nothing. -/
structure Recognised (react : δ → μ → σ → σ × Option μ) (Automatic : μ → Prop)
    (Proper : δ → Message μ → Prop) : Prop where
  answer : ∀ d m s, Proper d m → ∀ a ∈ (react d m.content s).2, Automatic a
  silent : ∀ d m s, Proper d m → 0 < m.depth → Automatic m.content →
    react d m.content s = (s, none)

/-- No answer to an answer so far, and the answers are recognised. -/
def Settled (Automatic : μ → Prop) (net : Network σ μ) : Prop :=
  ∀ m ∈ net.messages, m.depth ≤ 1 ∧ (0 < m.depth → Automatic m.content)

section

variable {react : δ → μ → σ → σ × Option μ} {Automatic : μ → Prop}
  {Proper : δ → Message μ → Prop} {net : Network σ μ}

open Network

theorem receive_of_silent {d : δ} {m : Message μ}
    (h : react d m.content net.state = (net.state, none)) : net.receive react d m = net := by
  simp [receive, h]

/-- The delivery of an answer leaves the network as it is. -/
theorem step_of_answers (hrec : Recognised react Automatic Proper)
    (hsettled : Settled Automatic net) {e : Event δ μ}
    (hproper : ∀ d i, e = .deliver d i → ∀ m ∈ net.messages[i]?, Proper d m)
    (h : net.answers e = true) : net.step react e = net := by
  cases e with
  | post content => simp [answers] at h
  | deliver d i =>
    cases hm : net.messages[i]? with
    | none => simp [step, hm]
    | some m =>
      have hdepth : 0 < m.depth := by simpa [answers, hm] using h
      have hauto := (hsettled m (List.mem_of_getElem? hm)).2 hdepth
      simp only [step, hm]
      exact receive_of_silent (hrec.silent d m _ (hproper d i rfl m hm) hdepth hauto)

theorem settled_append {messages : List (Message μ)} {state : σ}
    (hsettled : Settled Automatic net)
    (h : ∀ m ∈ messages, m.depth ≤ 1 ∧ (0 < m.depth → Automatic m.content)) :
    Settled Automatic ⟨state, net.messages ++ messages⟩ := by
  intro m hm
  rcases List.mem_append.mp hm with hm | hm
  · exact hsettled m hm
  · exact h m hm

theorem settled_step (hrec : Recognised react Automatic Proper)
    (hsettled : Settled Automatic net) {e : Event δ μ}
    (hproper : ∀ d i, e = .deliver d i → ∀ m ∈ net.messages[i]?, Proper d m) :
    Settled Automatic (net.step react e) := by
  by_cases hanswers : net.answers e = true
  · rw [step_of_answers hrec hsettled hproper hanswers]
    exact hsettled
  · cases e with
    | post content =>
      apply settled_append hsettled
      intro m hm
      rw [List.mem_singleton.mp hm]
      exact ⟨Nat.zero_le 1, fun hpos => absurd hpos (Nat.lt_irrefl 0)⟩
    | deliver d i =>
      cases hm : net.messages[i]? with
      | none =>
        simp only [step, hm]
        exact hsettled
      | some m =>
        -- the message was posted, so its answer is the first in its line
        have hdepth : m.depth = 0 := by simpa [answers, hm] using hanswers
        simp only [step, hm]
        apply settled_append hsettled
        intro a ha
        obtain ⟨answer, hanswer, rfl⟩ := List.mem_map.mp ha
        refine ⟨by simp [hdepth], fun _ => ?_⟩
        exact hrec.answer d m _ (hproper d i rfl m hm) answer (by simpa using hanswer)

theorem settled_run (hrec : Recognised react Automatic Proper) {events : List (Event δ μ)}
    (hsettled : Settled Automatic net) (hvalid : net.Valid react Proper events) :
    Settled Automatic (net.run react events) := by
  induction events generalizing net with
  | nil => exact hsettled
  | cons e events ih => exact ih (settled_step hrec hsettled hvalid.1) hvalid.2

/-- Deliveries of answers can be struck out of a run. -/
theorem run_unanswered (hrec : Recognised react Automatic Proper) {events : List (Event δ μ)}
    (hsettled : Settled Automatic net) (hvalid : net.Valid react Proper events) :
    net.run react (net.unanswered react events) = net.run react events := by
  induction events generalizing net with
  | nil => rfl
  | cons e events ih =>
    have htail := ih (settled_step hrec hsettled hvalid.1) hvalid.2
    rw [unanswered]
    by_cases hanswers : net.answers e = true
    · rw [if_pos hanswers, List.nil_append]
      rw [step_of_answers hrec hsettled hvalid.1 hanswers] at htail ⊢
      rw [htail, run, run, List.foldl_cons, step_of_answers hrec hsettled hvalid.1 hanswers]
    · rw [if_neg hanswers]
      exact htail

/-- A delivery adds at most one message. -/
theorem length_step_le (e : Event δ μ) :
    (net.step react e).messages.length ≤ net.messages.length + 1 := by
  cases e with
  | post content => simp [step]
  | deliver d i =>
    simp only [step]
    cases net.messages[i]? with
    | none => exact Nat.le_succ _
    | some m =>
      cases hanswer : (react d m.content net.state).2 with
      | none => simp [receive, hanswer]
      | some answer => simp [receive, hanswer]

theorem length_run_le (events : List (Event δ μ)) :
    (net.run react events).messages.length ≤ net.messages.length + events.length := by
  induction events generalizing net with
  | nil => exact Nat.le_refl _
  | cons e events ih =>
    have hstep := @length_step_le _ _ _ react net e
    have htail := @ih (net.step react e)
    rw [List.length_cons]
    exact Nat.le_trans htail (by omega)

end

end Simvacation.Responders
