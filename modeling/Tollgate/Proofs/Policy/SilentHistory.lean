import Tollgate.Proofs.Policy.PerSecond
import Tollgate.Proofs.Policy.PinRuns

/-! # Reading the history of silent refusals

What one more call adds to each list of times, and the order of the times in them. The policy
forgets the pending refusals of a host at a handshake too, so `pendingSince` is what it can hold;
outside the window of every handshake that makes no difference to the rule.
-/

namespace Tollgate.SilentRule

open Machine

variable {saved : HostMap ℕ} {host key : Text} {call : Call} {past history : List Call} {now time last : ℕ}

/-- The time of the newest call. -/
def newestTime : List Call → Option ℕ
  | [] => none
  | call :: _ => call.op.now?

theorem mem_callTimes_of_suffix {moment : List Call} (suffix : moment <:+ history)
    (newest : newestTime moment = some time) : time ∈ callTimes history := by
  cases moment with
  | nil => contradiction
  | cons call past =>
    exact List.mem_filterMap.mpr ⟨call, suffix.subset (List.mem_cons_self ..), newest⟩

/-- Whatever is read with the time of its moment has a time of the history. -/
theorem mem_callTimes_of_since {β : Type*} {clears : List Call → Bool} {read : List Call → Option β} (timeOf : β → ℕ)
    (timed : ∀ moment b, read moment = some b → newestTime moment = some (timeOf b)) {b : β}
    (member : b ∈ since clears read history) : timeOf b ∈ callTimes history := by
  obtain ⟨moment, suffix, found⟩ := exists_of_mem_since member
  exact mem_callTimes_of_suffix suffix (timed moment b found)

theorem newestTime_of_noted {refusal : Text × ℕ} (found : noted saved history = some refusal) :
    newestTime history = some refusal.2 := by
  cases history with
  | nil => contradiction
  | cons call past =>
    obtain ⟨op, ties⟩ := call
    cases op with
    | recordSilentRefusal host now =>
      simp only [noted] at found
      split at found
      · contradiction
      · cases found
        rfl
    | _ => contradiction

theorem noted_of_counted {refusal : Text × ℕ} (found : counted saved history = some refusal) :
    noted saved history = some refusal := by
  unfold counted at found
  split at found
  · next host now noted =>
    split at found
    · contradiction
    · exact noted.trans found
  · contradiction

theorem newestTime_of_burst (found : burst saved history = some time) : newestTime history = some time := by
  unfold burst at found
  split at found
  · next host now noted =>
    split at found
    · cases found
      exact newestTime_of_noted noted
    · contradiction
  · contradiction

theorem countedOf_eq_some_iff : countedOf saved host history = some time ↔ counted saved history = some (host, time) := by
  unfold countedOf
  cases counted saved history with
  | none => simp
  | some refusal => simp only [Option.some.injEq, Prod.ext_iff, Option.ite_none_right_eq_some]

theorem newestTime_of_countedOf (found : countedOf saved host history = some time) :
    newestTime history = some time :=
  newestTime_of_noted (noted_of_counted (countedOf_eq_some_iff.mp found))

theorem newestTime_of_handshake (found : handshake host history = some time) : newestTime history = some time := by
  cases history with
  | nil => contradiction
  | cons call past =>
    obtain ⟨op, ties⟩ := call
    cases op with
    | recordInterceptedHandshake name now =>
      simp only [handshake] at found
      split at found
      · exact found
      · contradiction
    | _ => contradiction

theorem mem_lately {maxAge : ℕ} {times : List ℕ} :
    time ∈ lately maxAge now times ↔ time ∈ times ∧ now - time ≤ maxAge := by
  simp [lately]

/-! ## One more call -/

theorem burst_eq_none (unnoted : noted saved history = none) : burst saved history = none := by
  rw [burst, unnoted]

theorem counted_eq_none (unnoted : noted saved history = none) : counted saved history = none := by
  rw [counted, unnoted]

theorem countedOf_eq_none (uncounted : counted saved history = none) : countedOf saved host history = none := by
  rw [countedOf, uncounted]

theorem quietOf_eq_none (uncounted : counted saved history = none) : quietOf saved host history = none := by
  rw [quietOf, countedOf_eq_none uncounted]
  rfl

theorem handshakes_cons :
    handshakes host (call :: past) = (handshake host (call :: past)).toList ++ handshakes host past := since_cons rfl

theorem bursts_cons : bursts saved (call :: past) = (burst saved (call :: past)).toList ++ bursts saved past :=
  since_cons rfl

/-- What the policy can hold as pending: a handshake forgets it as well. -/
def pendingSince (saved : HostMap ℕ) (host : Text) (history : List Call) : List ℕ :=
  since (fun moment => clears saved host moment || (handshake host moment).isSome) (quietOf saved host) history

theorem countedSince_cons :
    countedSince saved host (call :: past) =
      if clears saved host (call :: past) then []
      else (countedOf saved host (call :: past)).toList ++ countedSince saved host past := rfl

theorem quietSince_cons :
    quietSince saved host (call :: past) =
      if clears saved host (call :: past) then []
      else (quietOf saved host (call :: past)).toList ++ quietSince saved host past := rfl

theorem pendingSince_cons :
    pendingSince saved host (call :: past) =
      if clears saved host (call :: past) || (handshake host (call :: past)).isSome then []
      else (quietOf saved host (call :: past)).toList ++ pendingSince saved host past := rfl

theorem unnoted_of_handshake (found : handshake host history = some time) : noted saved history = none := by
  cases history with
  | nil => rfl
  | cons call past =>
    obtain ⟨op, ties⟩ := call
    cases op with
    | recordInterceptedHandshake name now => rfl
    | _ => contradiction

/-- Nothing is pending while a handshake is recent. -/
theorem lately_handshakes_of_pending (member : time ∈ pendingSince saved host history) :
    lately rejectionWindowSecs time (handshakes host history) = [] := by
  induction history with
  | nil => contradiction
  | cons call past ih =>
    rw [pendingSince_cons] at member
    split at member
    · contradiction
    · next kept =>
      rcases List.mem_append.mp member with here | earlier
      · rw [Option.mem_toList, quietOf, Option.filter_eq_some_iff] at here
        exact of_decide_eq_true here.2
      · have none : handshake host (call :: past) = none := by
          cases found : handshake host (call :: past) with
          | none => rfl
          | some _ => simp [found] at kept
        rw [handshakes_cons, none]
        exact ih earlier

/-- With no handshake in the window, what is pending in it are the quiet refusals. -/
theorem mem_pendingSince_iff (ordered : Ordered history)
    (quiet : lately rejectionWindowSecs now (handshakes host history) = []) (young : now - time ≤ rejectionWindowSecs) :
    time ∈ pendingSince saved host history ↔ time ∈ quietSince saved host history := by
  induction history with
  | nil => exact Iff.rfl
  | cons call past ih =>
    rw [handshakes_cons, lately, List.filter_append, List.append_eq_nil_iff] at quiet
    have earlier := ih ordered.tail quiet.2
    rw [pendingSince_cons, quietSince_cons]
    cases cleared : clears saved host (call :: past) with
    | true => simp
    | false =>
      cases found : handshake host (call :: past) with
      | none => simpa using or_congr_right earlier
      | some shaken =>
        -- A handshake out of the window leaves only refusals that are out of it too.
        have old : ¬ now - shaken ≤ rejectionWindowSecs := by simpa [found] using quiet.1
        have unread : quietOf saved host (call :: past) = none :=
          quietOf_eq_none (counted_eq_none (unnoted_of_handshake found))
        have gone : time ∉ quietSince saved host past := by
          intro member
          have timed : time ∈ callTimes past := mem_callTimes_of_since id
            (fun _ _ found => newestTime_of_countedOf (Option.filter_eq_some_iff.mp found).1) member
          have order : time ≤ shaken := ordered.le_now (newestTime_of_handshake found) time timed
          omega
        simpa [unread] using gone

end Tollgate.SilentRule
