import Mathlib.Data.List.Basic

/-! Guarded transition systems. A run is a sequence of enabled events; `P` restricts
the steps of a run by a condition on the state before the step and on its event. -/
namespace Transition

structure System (σ ε : Type*) where
  Enabled : σ → ε → Prop
  next : σ → ε → σ

variable {σ ε : Type*} {M : System σ ε} {P : σ → ε → Prop} {s u : σ}

inductive Execution (M : System σ ε) (P : σ → ε → Prop) (s : σ) : σ → Prop where
  | refl : Execution M P s s
  | tail {u e} : Execution M P s u → M.Enabled u e → P u e → Execution M P s (M.next u e)

/-- The condition that every step meets. -/
def Unrestricted (_ : σ) (_ : ε) : Prop := True

instance (s : σ) (e : ε) : Decidable (Unrestricted s e) := .isTrue trivial

theorem Execution.invariant {I : σ → Prop} (h : Execution M P s u) (hs : I s)
    (step : ∀ v e, I v → M.Enabled v e → P v e → I (M.next v e)) : I u := by
  induction h with
  | refl => exact hs
  | tail _ he hp ih => exact step _ _ ih he hp

theorem Execution.mono {Q : σ → ε → Prop} (h : Execution M P s u) (hq : ∀ v e, P v e → Q v e) :
    Execution M Q s u := by
  induction h with
  | refl => exact .refl
  | tail _ he hp ih => exact ih.tail he (hq _ _ hp)

def runTrace (M : System σ ε) (s : σ) : List ε → σ
  | [] => s
  | e :: es => runTrace M (M.next s e) es

def ValidTrace (M : System σ ε) (P : σ → ε → Prop) (s : σ) : List ε → Prop
  | [] => True
  | e :: es => M.Enabled s e ∧ P s e ∧ ValidTrace M P (M.next s e) es

instance ValidTrace.decidable [∀ s e, Decidable (M.Enabled s e)] [∀ s e, Decidable (P s e)] :
    ∀ (es : List ε) (s : σ), Decidable (ValidTrace M P s es)
  | [], _ => .isTrue trivial
  | e :: es, s =>
    have := ValidTrace.decidable es (M.next s e)
    inferInstanceAs (Decidable (M.Enabled s e ∧ P s e ∧ ValidTrace M P (M.next s e) es))

theorem ValidTrace.execution {es : List ε} (hu : Execution M P s u)
    (h : ValidTrace M P u es) : Execution M P s (runTrace M u es) := by
  induction es generalizing u with
  | nil => exact hu
  | cons e es ih => exact ih (.tail hu h.1 h.2.1) h.2.2

/-- A relation that every step keeps carries a run of one system over to the other. -/
theorem ValidTrace.simulates {τ : Type*} {N : System τ ε} {R : σ → τ → Prop}
    (step : ∀ u v e, R u v → M.Enabled u e → P u e →
      N.Enabled v e ∧ R (M.next u e) (N.next v e)) :
    ∀ (es : List ε) (s : σ) (t : τ), R s t → ValidTrace M P s es →
      ValidTrace N Unrestricted t es ∧ R (runTrace M s es) (runTrace N t es) := by
  intro es
  induction es with
  | nil => exact fun s t hr _ => ⟨trivial, hr⟩
  | cons e es ih =>
    intro s t hr ⟨he, hp, hes⟩
    obtain ⟨hen, hr⟩ := step s t e hr he hp
    obtain ⟨hvalid, hend⟩ := ih _ _ hr hes
    exact ⟨⟨hen, trivial, hvalid⟩, hend⟩

end Transition

/-! Readers with a mailbox. A publisher sends every update to every reader, and a reader runs its
mail in the order of arrival: an update replaces its cell, a job looks at the cell. So a reader
holds an earlier state of what has been published, and the updates it has missed are in its mailbox.
-/
namespace Mailbox

inductive Mail (α β : Type*) where
  | update (a : α)
  | job (b : β)

/-- A job that has been run: how many updates came before it, and what was in the cell. -/
structure Done (α β : Type*) where
  version : ℕ
  job : β
  cell : Option α

structure Reader (α β : Type*) where
  cell : Option α
  mail : List (Mail α β)
  /-- the number of updates run -/
  version : ℕ
  done : List (Done α β)

variable {α β : Type*} {r : Reader α β} {published : List α}

def Mail.update? : Mail α β → Option α
  | .update a => some a
  | .job _ => none

namespace Reader

def new : Reader α β := ⟨none, [], 0, []⟩

def post (r : Reader α β) (m : Mail α β) : Reader α β := { r with mail := r.mail ++ [m] }

/-- Run the first mail. -/
def run (r : Reader α β) : Reader α β :=
  match r.mail with
  | [] => r
  | .update a :: mail => { r with cell := some a, mail := mail, version := r.version + 1 }
  | .job b :: mail => { r with mail := mail, done := r.done ++ [⟨r.version, b, r.cell⟩] }

/-- Run the first `n` mails. -/
def runs : ℕ → Reader α β → Reader α β
  | 0, r => r
  | n + 1, r => runs n r.run

def updates (r : Reader α β) : List α := r.mail.filterMap Mail.update?

/-- The reader has run the first updates, the others are in its mailbox. -/
structure InStep (published : List α) (r : Reader α β) : Prop where
  version_le : r.version ≤ published.length
  cell : r.cell = (published.take r.version).getLast?
  pending : r.updates = published.drop r.version
  /-- no job comes before the first update -/
  ready : 0 < r.version ∨ ∃ a mail, r.mail = .update a :: mail
  done : ∀ d ∈ r.done, 0 < d.version ∧ d.version ≤ r.version ∧ d.cell = published[d.version - 1]?
  ordered : r.done.Pairwise fun d d' => d.version ≤ d'.version

theorem updates_post (m : Mail α β) : (r.post m).updates = r.updates ++ m.update?.toList := by
  simp only [updates, post, List.filterMap_append]
  cases m <;> rfl

theorem InStep.first (a : α) : InStep [a] ((new : Reader α β).post (.update a)) :=
  ⟨Nat.zero_le _, rfl, rfl, .inr ⟨a, [], rfl⟩, fun _ hd => absurd hd List.not_mem_nil, .nil⟩

theorem ready_post {m : Mail α β} (h : 0 < r.version ∨ ∃ a mail, r.mail = .update a :: mail) :
    0 < (r.post m).version ∨ ∃ a mail, (r.post m).mail = .update a :: mail := by
  refine h.imp_right ?_
  rintro ⟨a, mail, hm⟩
  exact ⟨a, mail ++ [m], by rw [post, hm]; rfl⟩

theorem InStep.publish (h : r.InStep published) (a : α) :
    (r.post (.update a)).InStep (published ++ [a]) := by
  have hv := h.version_le
  refine ⟨?_, ?_, ?_, ready_post h.ready, fun d hd => ?_, h.ordered⟩
  · rw [List.length_append]
    exact Nat.le_add_right_of_le hv
  · rw [show (r.post (.update a)).version = r.version from rfl, List.take_append_of_le_length hv]
    exact h.cell
  · rw [updates_post, h.pending, show (r.post (.update a)).version = r.version from rfl,
      List.drop_append_of_le_length hv]
    rfl
  · obtain ⟨hpos, hle, hcell⟩ := h.done d hd
    refine ⟨hpos, hle, ?_⟩
    rw [List.getElem?_append_left (by omega)]
    exact hcell

theorem InStep.postJob (h : r.InStep published) (b : β) : (r.post (.job b)).InStep published := by
  refine ⟨h.version_le, h.cell, ?_, ready_post h.ready, h.done, h.ordered⟩
  rw [updates_post, h.pending]
  exact List.append_nil _

theorem InStep.runUpdate (h : r.InStep published) {a : α} {mail : List (Mail α β)}
    (hm : r.mail = .update a :: mail) :
    InStep published { r with cell := some a, mail := mail, version := r.version + 1 } := by
  have hp := h.pending
  rw [updates, hm] at hp
  have hdrop : a :: mail.filterMap Mail.update? = published.drop r.version := hp
  have hlt : r.version < published.length := by
    by_contra hle
    rw [List.drop_eq_nil_of_le (by omega)] at hdrop
    cases hdrop
  rw [List.drop_eq_getElem_cons hlt] at hdrop
  obtain ⟨ha, hrest⟩ := List.cons.inj hdrop
  refine ⟨hlt, ?_, hrest, .inl (Nat.succ_pos _), fun d hd => ?_, h.ordered⟩
  · rw [List.take_succ_eq_append_getElem hlt, List.getLast?_concat, ha]
  · obtain ⟨hpos, hle, hcell⟩ := h.done d hd
    exact ⟨hpos, Nat.le_succ_of_le hle, hcell⟩

theorem InStep.runJob (h : r.InStep published) {b : β} {mail : List (Mail α β)}
    (hm : r.mail = .job b :: mail) :
    InStep published { r with mail := mail, done := r.done ++ [⟨r.version, b, r.cell⟩] } := by
  have hpos : 0 < r.version := by
    refine h.ready.resolve_right ?_
    rintro ⟨a, mail', hm'⟩
    rw [hm] at hm'
    cases hm'
  have hp := h.pending
  rw [updates, hm] at hp
  refine ⟨h.version_le, h.cell, hp, .inl hpos, fun d hd => ?_, ?_⟩
  · rcases List.mem_append.mp hd with hd | hd
    · exact h.done d hd
    · rw [List.mem_singleton.mp hd]
      refine ⟨hpos, Nat.le_refl _, ?_⟩
      have hv := h.version_le
      rw [h.cell, List.getLast?_eq_getElem?, List.length_take, Nat.min_eq_left hv,
        List.getElem?_take_of_lt (by omega)]
  · refine List.pairwise_append.mpr ⟨h.ordered, List.pairwise_singleton .., fun d hd d' hd' => ?_⟩
    rw [List.mem_singleton.mp hd']
    exact (h.done d hd).2.1

theorem InStep.run (h : r.InStep published) : r.run.InStep published := by
  unfold Reader.run
  split
  · exact h
  next hm => exact h.runUpdate hm
  next hm => exact h.runJob hm

theorem InStep.runs (h : r.InStep published) (n : ℕ) : (r.runs n).InStep published := by
  induction n generalizing r with
  | zero => exact h
  | succ n ih => exact ih h.run

theorem length_mail_run : r.run.mail.length = r.mail.length - 1 := by
  unfold Reader.run
  split
  next hm => rw [hm]; rfl
  next hm => rw [hm]; rfl
  next hm => rw [hm]; rfl

theorem length_mail_runs (n : ℕ) : (r.runs n).mail.length = r.mail.length - n := by
  induction n generalizing r with
  | zero => rfl
  | succ n ih =>
    have hn : (r.runs (n + 1)).mail.length = r.run.mail.length - n := ih
    rw [hn, length_mail_run]
    omega

/-- A reader that has run all its mail holds what was published last. -/
theorem InStep.latest (h : r.InStep published) :
    (r.runs r.mail.length).cell = published.getLast? := by
  have hs := h.runs r.mail.length
  have hmail : (r.runs r.mail.length).mail = [] := by
    rw [← List.length_eq_zero_iff, length_mail_runs, Nat.sub_self]
  have hp := hs.pending
  rw [updates, hmail] at hp
  have hle : published.length ≤ (r.runs r.mail.length).version := List.drop_eq_nil_iff.mp hp.symm
  rw [hs.cell, List.take_of_length_le hle]

end Reader
end Mailbox
