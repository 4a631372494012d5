/-!
Programs that ask an environment questions.

A dialogue is a result, or a question together with the rest of the dialogue
for every reply.  Nothing is assumed of the environment: a dialogue concludes
with a result along each transcript of questions and replies that it can have,
and what holds of every conclusion holds whatever the environment does.
-/

universe u v w x

inductive Dialogue {Question : Type u} (Reply : Question → Type v) (Result : Type w) :
    Type (max u v w) where
  | done (result : Result)
  | ask (question : Question) (next : Reply question → Dialogue Reply Result)

namespace Dialogue

variable {Question : Type u} {Reply : Question → Type v} {Result : Type w} {Other : Type x}

abbrev Exchange (Reply : Question → Type v) := (question : Question) × Reply question

def bind : Dialogue Reply Result → (Result → Dialogue Reply Other) → Dialogue Reply Other
  | .done result, rest => rest result
  | .ask question next, rest => .ask question fun reply => (next reply).bind rest

inductive Concludes : Dialogue Reply Result → List (Exchange Reply) → Result → Prop where
  | done (result : Result) : Concludes (.done result) [] result
  | ask {question : Question} {next : Reply question → Dialogue Reply Result}
      (reply : Reply question) {later : List (Exchange Reply)} {result : Result} :
      Concludes (next reply) later result →
      Concludes (.ask question next) (⟨question, reply⟩ :: later) result

/-- The conversation with an environment that answers by what has been said before. -/
def converse (environment : List (Exchange Reply) → (question : Question) → Reply question) :
    Dialogue Reply Result → List (Exchange Reply) → List (Exchange Reply) × Result
  | .done result, said => (said, result)
  | .ask question next, said =>
      (next (environment said question)).converse environment
        (said ++ [⟨question, environment said question⟩])

/-- Only such questions are asked, whatever the replies. -/
def Asks (allowed : Question → Prop) : Dialogue Reply Result → Prop
  | .done _ => True
  | .ask question next => allowed question ∧ ∀ reply, (next reply).Asks allowed

/-- Only such results are reached, whatever the replies. -/
def Yields (holds : Result → Prop) : Dialogue Reply Result → Prop
  | .done result => holds result
  | .ask _ next => ∀ reply, (next reply).Yields holds

theorem concludes_done {result conclusion : Result} {transcript : List (Exchange Reply)} :
    (Dialogue.done result).Concludes transcript conclusion ↔
      transcript = [] ∧ conclusion = result := by
  constructor
  · intro concludes
    cases concludes
    exact ⟨rfl, rfl⟩
  · rintro ⟨rfl, rfl⟩
    exact .done conclusion

theorem concludes_ask {question : Question} {next : Reply question → Dialogue Reply Result}
    {transcript : List (Exchange Reply)} {conclusion : Result} :
    (Dialogue.ask question next).Concludes transcript conclusion ↔
      ∃ reply later, transcript = ⟨question, reply⟩ :: later ∧
        (next reply).Concludes later conclusion := by
  constructor
  · intro concludes
    cases concludes with
    | ask reply later => exact ⟨reply, _, rfl, later⟩
  · rintro ⟨reply, later, rfl, concludes⟩
    exact .ask reply concludes

theorem concludes_bind {dialogue : Dialogue Reply Result}
    {rest : Result → Dialogue Reply Other} {transcript : List (Exchange Reply)}
    {conclusion : Other} :
    (dialogue.bind rest).Concludes transcript conclusion ↔
      ∃ earlier middle later, transcript = earlier ++ later ∧
        dialogue.Concludes earlier middle ∧ (rest middle).Concludes later conclusion := by
  induction dialogue generalizing transcript with
  | done result =>
      constructor
      · intro concludes
        exact ⟨[], result, transcript, rfl, .done result, concludes⟩
      · rintro ⟨earlier, middle, later, rfl, first, second⟩
        obtain ⟨rfl, rfl⟩ := concludes_done.mp first
        exact second
  | ask question next ih =>
      constructor
      · intro concludes
        obtain ⟨reply, after, rfl, going⟩ := concludes_ask.mp concludes
        obtain ⟨earlier, middle, later, rfl, first, second⟩ := (ih reply).mp going
        exact ⟨⟨question, reply⟩ :: earlier, middle, later, rfl, .ask reply first, second⟩
      · rintro ⟨earlier, middle, later, rfl, first, second⟩
        obtain ⟨reply, after, rfl, going⟩ := concludes_ask.mp first
        exact .ask reply ((ih reply).mpr ⟨after, middle, later, rfl, going, second⟩)

theorem Concludes.asks {allowed : Question → Prop} {dialogue : Dialogue Reply Result}
    {transcript : List (Exchange Reply)} {conclusion : Result}
    (concludes : dialogue.Concludes transcript conclusion) (asks : dialogue.Asks allowed) :
    ∀ exchange ∈ transcript, allowed exchange.1 := by
  induction concludes with
  | done result =>
      intro exchange member
      cases member
  | ask reply concludes ih =>
      intro exchange member
      rcases List.mem_cons.mp member with rfl | later
      · exact asks.1
      · exact ih (asks.2 reply) exchange later

theorem Concludes.yields {holds : Result → Prop} {dialogue : Dialogue Reply Result}
    {transcript : List (Exchange Reply)} {conclusion : Result}
    (concludes : dialogue.Concludes transcript conclusion) (yields : dialogue.Yields holds) :
    holds conclusion := by
  induction concludes with
  | done result => exact yields
  | ask reply concludes ih => exact ih (yields reply)

theorem Yields.bind {middle : Result → Prop} {holds : Other → Prop}
    {dialogue : Dialogue Reply Result} {rest : Result → Dialogue Reply Other}
    (first : dialogue.Yields middle)
    (after : ∀ result, middle result → (rest result).Yields holds) :
    (dialogue.bind rest).Yields holds := by
  induction dialogue with
  | done result => exact after result first
  | ask question next ih => exact fun reply => ih reply (first reply)

/-- Every environment brings the dialogue to a conclusion. -/
theorem converse_concludes
    (environment : List (Exchange Reply) → (question : Question) → Reply question)
    (dialogue : Dialogue Reply Result) (said : List (Exchange Reply)) :
    ∃ transcript, (dialogue.converse environment said).1 = said ++ transcript ∧
      dialogue.Concludes transcript (dialogue.converse environment said).2 := by
  induction dialogue generalizing said with
  | done result => exact ⟨[], (List.append_nil said).symm, .done result⟩
  | ask question next ih =>
      obtain ⟨transcript, extended, concludes⟩ :=
        ih (environment said question) (said ++ [⟨question, environment said question⟩])
      refine ⟨⟨question, environment said question⟩ :: transcript, ?_, .ask _ concludes⟩
      rw [converse, extended, List.append_assoc]
      rfl

end Dialogue
