import CapyAmqp.Broker.Step

/-!
# Publish — what `publish_message` returns

`publish_message` waits for the outcome of its transaction at a promise of a string: the success
callback fulfils it with the empty string, the error callback with the library's message, and the
caller takes an empty string for success.  `CommitOutcome.barrier` is that encoding,
`publishResult` the decoding; `publish_reports_iff` says for which outcomes the one undoes the other.
-/

namespace CapyAmqp

/-- What AMQP-CPP reports of `commitTransaction`. -/
inductive CommitOutcome
  | success
  | error (message : String)
  deriving DecidableEq, Repr

/-- The value of `publish_barrier`. -/
def CommitOutcome.barrier : CommitOutcome → String
  | .success => ""
  | .error message => message

/-- The end of `publish_message`, from the value of the barrier. -/
def publishResult (error : String) : Error :=
  if error = "" then .ok else .broker .publish error

theorem publishResult_of_ne {error : String} (h : error ≠ "") :
    publishResult error = .broker .publish error := by
  simp [publishResult, h]

namespace BrokerImpl

variable {H : Type}

/-- `publish_message` on `thread`, with the outcome of its transaction. -/
def publish (codec : Codec) (thread : ThreadId) (message : Json) (routingKey : String)
    (outcome : CommitOutcome) (b : BrokerImpl H) :
    Except Fault (BrokerImpl H × List (Action H) × Error) :=
  match publishMessage codec thread message routingKey b with
  | .error f => .error f
  | .ok (b, as) => .ok (b, as, publishResult outcome.barrier)

/-- The call returns, with an error that says what became of the transaction. -/
def PublishReports (codec : Codec) (thread : ThreadId) (message : Json) (routingKey : String)
    (outcome : CommitOutcome) (b : BrokerImpl H) : Prop :=
  ∃ b' as error, publish codec thread message routingKey outcome b = .ok (b', as, error) ∧
    (error.toBool = false ↔ outcome = .success) ∧
    ∀ text, outcome = .error text → error = .broker .publish text

/-- The call returns in any case, with what the barrier decodes to. -/
theorem publish_returns (codec : Codec) (thread : ThreadId) (message : Json) (routingKey : String)
    (outcome : CommitOutcome) (b : BrokerImpl H) :
    publish codec thread message routingKey outcome b =
      .ok (b.getConnection thread,
        (publishOps codec b.exchangeName message routingKey).map .publisher,
        publishResult outcome.barrier) := rfl

end BrokerImpl

/-- `publish_message` reports what became of the transaction, unless it failed with an empty text:
that is reported as a success. -/
theorem publish_reports_iff {H : Type} (codec : Codec) (thread : ThreadId) (message : Json)
    (routingKey : String) (outcome : CommitOutcome) (b : BrokerImpl H) :
    b.PublishReports codec thread message routingKey outcome ↔ outcome ≠ .error "" := by
  have hreturns := BrokerImpl.publish_returns codec thread message routingKey outcome b
  constructor
  · rintro ⟨b', as, error, hpublish, hsuccess, _⟩ hempty
    subst hempty
    rw [hreturns] at hpublish
    cases hpublish
    -- the error without a text has the barrier's value of a success
    cases hsuccess.1 rfl
  · intro hne
    refine ⟨_, _, _, hreturns, ?_⟩
    cases outcome with
    | success => exact ⟨by simp [CommitOutcome.barrier, publishResult], by simp⟩
    | error text =>
        have htext : text ≠ "" := by
          simpa using hne
        have hresult := publishResult_of_ne htext
        refine ⟨by simp [CommitOutcome.barrier, hresult], ?_⟩
        rintro text' ⟨⟩
        exact hresult

/-- The broker closes the channel without a reply text. -/
theorem failed_publish_succeeds :
    ¬ ∀ (codec : Codec) (thread : ThreadId) (message : Json) (routingKey : String)
      (outcome : CommitOutcome) (b : BrokerImpl Nat),
        b.PublishReports codec thread message routingKey outcome := by
  intro h
  rcases h Codec.small 0 .null "echo.ping" (.error "") (.construct "amq.topic") with
    ⟨b, as, error, hpublish, hsuccess, _⟩
  cases hpublish
  cases hsuccess.1 rfl

end CapyAmqp
