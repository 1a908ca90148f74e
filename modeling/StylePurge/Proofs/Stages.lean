import Mathlib.Data.List.Forall2
import StylePurge.Error

/-!
Stages that can fail. A sequence of stages succeeds if each of them does with what the
ones before it found, a list of inputs if each input does. What a stage reports does
not matter to its result.
-/

namespace StylePurge

theorem bind_eq_ok {Cause First Second : Type} {first : Except Cause First}
    {next : First → Except Cause Second} {value : Second} :
    (first >>= next) = .ok value ↔ ∃ middle, first = .ok middle ∧ next middle = .ok value := by
  cases first with
  | error cause => simp [bind, Except.bind]
  | ok middle => simp [bind, Except.bind]

theorem to_option_eq_some {Cause Value : Type} {result : Except Cause Value} {value : Value} :
    result.toOption = some value ↔ result = .ok value := by
  cases result with
  | error cause => simp [Except.toOption]
  | ok found => simp [Except.toOption]

section Traverse

variable {Cause First Second : Type} {convert : First → Except Cause Second}

theorem map_m_eq_ok {inputs : List First} {outputs : List Second} :
    inputs.mapM convert = .ok outputs ↔
      List.Forall₂ (fun input output => convert input = .ok output) inputs outputs := by
  induction inputs generalizing outputs with
  | nil =>
      rw [List.mapM_nil, List.forall₂_nil_left_iff]
      exact ⟨fun same => (Except.ok.inj same).symm, fun same => by rw [same]; rfl⟩
  | cons input rest induction =>
      rw [List.mapM_cons, bind_eq_ok, List.forall₂_cons_left_iff]
      constructor
      · rintro ⟨first, here, later⟩
        obtain ⟨others, found, same⟩ := bind_eq_ok.1 later
        exact ⟨first, others, here, induction.1 found, (Except.ok.inj same).symm⟩
      · rintro ⟨first, others, here, found, rfl⟩
        exact ⟨first, here, bind_eq_ok.2 ⟨others, induction.2 found, rfl⟩⟩

theorem mem_of_map_m {inputs : List First} {outputs : List Second}
    (success : inputs.mapM convert = .ok outputs) (output : Second) :
    output ∈ outputs ↔ ∃ input ∈ inputs, convert input = .ok output := by
  have related := map_m_eq_ok.1 success
  clear success
  induction related with
  | nil => simp
  | cons here _ induction => simp [induction, here, eq_comm]

theorem map_m_success {inputs : List First}
    (success : ∀ input ∈ inputs, ∃ output, convert input = .ok output) :
    ∃ outputs, inputs.mapM convert = .ok outputs := by
  induction inputs with
  | nil => exact ⟨[], rfl⟩
  | cons input rest induction =>
      obtain ⟨output, here⟩ := success input List.mem_cons_self
      obtain ⟨outputs, later⟩ :=
        induction fun other member => success other (List.mem_cons_of_mem input member)
      refine ⟨output :: outputs, ?_⟩
      rw [List.mapM_cons, here, later]
      rfl

theorem map_m_eq_error {inputs : List First} {cause : Cause}
    (failure : inputs.mapM convert = .error cause) :
    ∃ input ∈ inputs, convert input = .error cause := by
  induction inputs with
  | nil => exact nomatch failure
  | cons input rest induction =>
      rw [List.mapM_cons] at failure
      cases here : convert input with
      | error first =>
          rw [here] at failure
          exact ⟨input, List.mem_cons_self, by rw [here, Except.error.inj failure]⟩
      | ok output =>
          cases later : rest.mapM convert with
          | error first =>
              rw [here, later] at failure
              obtain ⟨other, member, failed⟩ := induction (by rw [later, Except.error.inj failure])
              exact ⟨other, List.mem_cons_of_mem input member, failed⟩
          | ok outputs =>
              rw [here, later] at failure
              exact nomatch failure

theorem of_map_m {inputs : List First} {outputs : List Second}
    (success : inputs.mapM convert = .ok outputs) :
    ∀ input ∈ inputs, ∃ output, convert input = .ok output := by
  have related := map_m_eq_ok.1 success
  clear success
  induction related with
  | nil => simp
  | cons here _ induction => simpa [here] using induction

end Traverse

namespace Logged

variable {Value : Type}

@[simp] theorem result_of_except (result : Except Error Value) :
    (ofExcept result).result = result := rfl

@[simp] theorem result_report (log : Log) : (report log).result = .ok () := rfl

@[simp] theorem result_fail (error : Error) :
    (fail error : Logged Value).result = .error error := rfl

@[simp] theorem result_pure (value : Value) : (pure value : Logged Value).result = .ok value := rfl

end Logged

end StylePurge
