import Tollgate.Model.Policy.PinsJson
import Tollgate.Proofs.Policy.Allowlist
import Tollgate.Proofs.Policy.SavedPins

/-! # Saving and reloading the learned pins

A session that starts from the file of another one knows the same pins and decides alike, as long as
no host was given whose lookup key has a lookup key of its own. Two trailing dots make such a host: the
first is removed when the pin is learned, the second when it is loaded.
-/

namespace Tollgate

namespace Policy

theorem after_eq (policy : Policy) (calls : List Call) :
    policy.after calls = { policy with
      learning := Machine.after (fun learning call => (learning.call call).2) policy.learning calls } := by
  induction calls with
  | nil => rfl
  | cons call past ih =>
    change (policy.after past).call call = _
    rw [ih]
    rfl

/-- What a policy is made of. -/
theorem new_eq_ok {format : PinsFormat} {config : Config} {json : Option Text} {policy : Policy}
    (made : Policy.new format config json = .ok policy) :
    policy.learning = .start ((json.map (parsePins format)).getD ∅) ∧
      ∀ other, Policy.new format config other =
        .ok { policy with learning := .start ((other.map (parsePins format)).getD ∅) } := by
  obtain ⟨user, allowed, passthrough, allowlist, rfl⟩ := eq_of_new made
  refine ⟨rfl, fun other => ?_⟩
  rw [Policy.new, passthrough, allowlist]
  rfl

theorem durable_parsePins {format : PinsFormat} {json : Text}
    (stable : ∀ file, format.parse json = some file → ∀ entry ∈ file.pins, StableHost entry.host) :
    Durable (parsePins format json) := by
  unfold parsePins
  split
  · next file parsed =>
    split
    · exact durable_collectPins (stable file parsed)
    · exact nofun
  · exact nofun

/-- A decision reads of the pins only their lookups. -/
theorem classify_congr (bundled : PatternSet) (policy : Policy) (learning : Learning) {host : Text}
    (same : learning.pins.lookup (lookupKey host) = policy.learning.pins.lookup (lookupKey host)) (now : UInt64) :
    classify bundled { policy with learning := learning } host now = classify bundled policy host now := by
  simp only [classify, same]

end Policy

/-- A policy made from the file of another one with the same configuration has the same pins and makes
the same decisions, if every host the first one was given has a lookup key that is its own lookup key. -/
theorem reload_keeps_pins (format : PinsFormat) (faithful : format.Faithful) (bundled : Policy.PatternSet)
    (config : Config) (json : Option Text) (start : Policy) (made : Policy.new format config json = .ok start)
    (saved : ∀ text ∈ json, ∀ file, format.parse text = some file → ∀ entry ∈ file.pins, StableHost entry.host)
    (history : List Call) (given : ∀ call ∈ history, ∀ host ∈ call.op.host?, StableHost host) :
    ∃ reloaded, Policy.new format config (some ((start.after history).learnedPinsJson format)) = .ok reloaded ∧
      reloaded.learnedPins = (start.after history).learnedPins ∧
      ∀ host now, reloaded.classify bundled host now = (start.after history).classify bundled host now := by
  obtain ⟨began, again⟩ := Policy.new_eq_ok made
  have initial : Durable ((json.map (Policy.parsePins format)).getD ∅) := by
    cases json with
    | none => exact nofun
    | some text => exact Policy.durable_parsePins (saved text rfl)
  have durable : Durable (start.after history).learning.pins := by
    rw [Policy.after_eq, began]
    exact durable_after initial given
  have lookups := Policy.lookup_parsePins faithful durable
  refine ⟨_, again _, Policy.learnedPins_congr lookups, fun host now => ?_⟩
  obtain ⟨learning, frame⟩ : ∃ learning, start.after history = { start with learning := learning } :=
    ⟨_, start.after_eq history⟩
  rw [frame] at lookups ⊢
  exact Policy.classify_congr bundled { start with learning := learning } (.start _) (lookups (lookupKey host)) now

/-- A policy that intercepts every host without a pin. -/
def plainConfig : Config := ⟨[], [], true⟩

def plainPolicy (pins : HostMap ℕ) : Policy := ⟨true, .new [], .new [], .start pins⟩

/-- Two rejections of a host, a minute apart. -/
def rejections (host : Text) : List Call :=
  [⟨.recordClientRejection host 160, .first⟩, ⟨.recordClientRejection host 100, .first⟩]

theorem reload_keeps_pins_sample :
    ∃ reloaded, Policy.new PinsJson.format plainConfig
        (some (((plainPolicy ∅).after (rejections "Bank.example.".toList)).learnedPinsJson PinsJson.format)) = .ok reloaded ∧
      reloaded.learnedPins = [("bank.example".toList, 160)] := by
  obtain ⟨reloaded, made, pins, -⟩ := reload_keeps_pins PinsJson.format PinsJson.format_faithful (.new []) plainConfig
    none (plainPolicy ∅) rfl nofun (rejections "Bank.example.".toList) (by decide)
  refine ⟨reloaded, made, pins.trans ?_⟩
  decide

/-- A pin that was learned for a host with two trailing dots is loaded as another host's. -/
theorem reload_changes_dotted_host :
    let policy := (plainPolicy ∅).after (rejections "bank.example..".toList)
    ∃ reloaded, Policy.new PinsJson.format plainConfig none = .ok (plainPolicy ∅) ∧
      Policy.new PinsJson.format plainConfig (some (policy.learnedPinsJson PinsJson.format)) = .ok reloaded ∧
      policy.learnedPins = [("bank.example.".toList, 160)] ∧ reloaded.learnedPins = [("bank.example".toList, 160)] ∧
      policy.classify (.new []) "bank.example..".toList 200 = .passthrough .learnedPin ∧
      reloaded.classify (.new []) "bank.example..".toList 200 = .intercept := by
  intro policy
  have pins : policy.learnedPins = [("bank.example.".toList, 160)] := by decide
  have parsed : Policy.parsePins PinsJson.format (policy.learnedPinsJson PinsJson.format) =
      Policy.collectPins [⟨"bank.example.".toList, 160⟩] := by
    rw [Policy.parsePins, Policy.learnedPinsJson, PinsJson.format_faithful, pins]
    rfl
  refine ⟨plainPolicy (Policy.collectPins [⟨"bank.example.".toList, 160⟩]), rfl, ?_, pins, ?_, ?_, ?_⟩
  · rw [← parsed]
    rfl
  · decide
  · decide
  · decide

end Tollgate
