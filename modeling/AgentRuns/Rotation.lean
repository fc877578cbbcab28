import AgentRuns.DeadLetters
import AgentRuns.Signatures
import AgentRuns.JsonWriting

/-!
# Secrets that rotate

A subscription's secret is rotated while its deliveries are on their way: "For `overlap` the secret it replaces signs every
delivery too, so a receiver keeps verifying while it moves to the new one; a rotation within that window ends the
older secret's."  What is posted of a delivery (`Delivery.posted`) is verified by whoever has a secret that was the
subscription's, up to one rotation and its overlap, and reads as the payload (`rotation_seamless`).
-/

namespace AgentRuns

open Relational Fallible Timed Service JsonText PyText Sha256

/-! ## What is posted -/

/-- What `send` posts of a delivery: the body, and its `X-Trellis-Signature`. -/
def Service.Delivery.posted (delivery : Delivery) (payload : List (List Nat × Value)) (time : Nat) :
    Except TextError (List UInt8 × List Nat) := do
  let body ← encoded ((ascii.dumps (.obj payload)).map Char.toNat)
  let signature ← sign (points delivery.secret) time body (delivery.previousSecret.map points)
  return (body, signature)

/-- The body is the UTF-8 of a text that reads as the value. -/
def Says (body : List UInt8) (v : Value) : Prop :=
  ∃ text : List Char, encode (text.map Char.toNat) = some body ∧ loads text = some v

section
variable {delivery : Service.Delivery} {payload : List (List Nat × Value)} {time : Nat}

theorem scalar_toNat (text : List Char) : ∀ n ∈ text.map Char.toNat, Scalar n := by
  intro n hn
  obtain ⟨c, -, rfl⟩ := List.mem_map.1 hn
  exact c.valid

/-- A header is accepted with each of the secrets it was signed with. -/
theorem verify_signed {secret reader : List Nat} {previous : Option (List Nat)} {body : List UInt8} {signed : List Nat}
    {clock : Int} {now : Option Int} {tolerance : Int} (hsign : sign secret time body previous = .ok signed)
    (hreader : reader ∈ keys secret previous) (htime : |now.getD clock - time| ≤ tolerance) :
    verifySignature clock reader (some signed) body now tolerance = .ok true := by
  obtain ⟨hlen, digests, hdigests, rfl⟩ := sign_ok.1 hsign
  have hhex : ∀ digest ∈ digests, ∃ key, digest = hexdigest key (message time body) := by
    intro digest hdigest
    obtain ⟨_, _, bytes, _, rfl⟩ := exists_of_mem_right hdigests hdigest
    exact ⟨bytes, rfl⟩
  have hsolid : ∀ digest ∈ digests, Solid digest := by
    intro digest hdigest
    obtain ⟨key, rfl⟩ := hhex digest hdigest
    exact solid_hexdigest key (message time body)
  have hread : ∀ right, Readable right digests := by
    intro right digest hdigest
    obtain ⟨key, rfl⟩ := hhex digest ((List.takeWhile_sublist _).subset hdigest)
    exact scalar_of_lt (hexdigest_lt key (message time body))
  have hparts : parts ((some (headerOf (decimal time) digests)).getD []) = (decimal time, digests) :=
    parts_headerOf (solid_decimal time) hsolid
  obtain ⟨digest, hdigest, key, hkey, rfl⟩ := exists_of_mem_left hdigests hreader
  refine (verify_accepts hparts).2
    ⟨⟨⟨decimal_ne_nil time, digit_decimal time⟩, List.ne_nil_of_mem hdigest⟩, hlen, ?_, key, hkey, hread _, ?_⟩
  · rw [number_decimal]
    exact htime
  · unfold right
    rw [number_decimal]
    exact hdigest

/-- A delivery of text secrets is posted, and what is posted says the payload. -/
theorem posted_says (hproper : ProperMembers payload) (htime : (decimal time).length ≤ maxStrDigits) :
    ∃ body header, delivery.posted payload time = .ok (body, header) ∧ Says body (.obj payload) ∧
      sign (points delivery.secret) time body (delivery.previousSecret.map points) = .ok header := by
  obtain ⟨body, hbody⟩ := encode_of_scalar (scalar_toNat (ascii.dumps (.obj payload)))
  have hkeys : ∀ key ∈ keys (points delivery.secret) (delivery.previousSecret.map points), ∃ bytes, encode key = some bytes := by
    intro key hkey
    rcases List.mem_cons.1 hkey with rfl | hkey
    · exact encode_of_scalar (scalar_points _)
    · obtain ⟨previous, -, rfl⟩ := Option.map_eq_some_iff.1 (Option.mem_toList.1 hkey)
      exact encode_of_scalar (scalar_points _)
  have hdigests : List.Forall₂ (fun key digest => ∃ bytes, encode key = some bytes ∧ digest = hexdigest bytes (message time body))
      (keys (points delivery.secret) (delivery.previousSecret.map points))
      ((keys (points delivery.secret) (delivery.previousSecret.map points)).map fun key =>
        hexdigest ((encode key).getD []) (message time body)) := by
    rw [List.forall₂_map_right_iff, List.forall₂_same]
    intro key hkey
    obtain ⟨bytes, hbytes⟩ := hkeys key hkey
    exact ⟨bytes, hbytes, by rw [hbytes]; rfl⟩
  have hsign := sign_ok.2 ⟨htime, _, hdigests, rfl⟩
  exact ⟨body, _, bind_ok.2 ⟨body, encoded_ok.2 hbody, bind_ok.2 ⟨_, hsign, rfl⟩⟩, ⟨_, hbody, ascii.loads_dumps hproper⟩, hsign⟩

end

/-! ## The secrets of a subscription -/

/-- The rotation of a subscription an act asks for: when, and how long the old secret still signs. -/
def SendAct.rotates (w : String) : SendAct → Option (Instant × Rat)
  | .route now (.rotateSecret _ webhookId _ overlap) _ => if webhookId = w then some (now, overlap) else none
  | _ => none

/-- Does the act ask to delete it? -/
def SendAct.deletes (w : String) : SendAct → Bool
  | .route _ (.delete _ webhookId) _ => webhookId = w
  | _ => false

/-- The rotations a list of acts asks for. -/
def rotations (w : String) (l : List (Instant × SendAct)) : List (Instant × Rat) := l.filterMap fun x => x.2.rotates w

/-- A secret that was the subscription's before these rotations signs: as its secret, or as the one that one rotation replaced. -/
inductive StillSigns (secret : String) (hook : WebhookRow) : List (Instant × Rat) → Prop
  | current {asked : List (Instant × Rat)} (h : hook.secret = secret) : StillSigns secret hook asked
  | replaced {now : Instant} {overlap : Rat} (h : hook.previousSecret = some secret)
      (ends : hook.previousSecretExpiresAt = some (now + overlap)) : StillSigns secret hook [(now, overlap)]

/-- The row of a rotation. -/
def WebhookRow.rotated (hook : WebhookRow) (secret : String) (until_ : Instant) : WebhookRow :=
  { hook with previousSecret := some hook.secret, secret := secret, previousSecretExpiresAt := some until_ }

namespace Sending

def hook? (s : Sending) (w : String) : Option WebhookRow := s.service.webhooks.find? w

section
variable {s : Sending} {now : Instant} {w : String} {act : SendAct} {hook : WebhookRow}

/-- A rotation that is refused changes nothing; one that is answered replaces the secret. -/
theorem hook_rotate {store : RunStore} {tenantId webhookId secret : String} {overlap : Rat}
    (hhook : s.service.webhooks.find? w = some hook) :
    ((s.service.step store now (.rotateSecret tenantId webhookId secret overlap)).webhooks.find? w = some hook) ∨
      webhookId = w ∧ (s.service.step store now (.rotateSecret tenantId webhookId secret overlap)).webhooks.find? w =
        some (hook.rotated secret (now + overlap)) := by
  cases h : s.service.rotateSecret tenantId webhookId secret overlap now with
  | error e => exact .inl (by simp only [Service.step, h]; exact hhook)
  | ok s' =>
    obtain ⟨row, hrow, hs'⟩ := bind_ok.1 h
    cases hs'
    have hfound : s.service.webhooks.find? webhookId = some row := by
      unfold subscription at hrow
      split at hrow
      · cases hrow
      · next found hfound =>
        cases hrow
        exact (Option.filter_eq_some_iff.1 hfound).1
    have hkey : row.webhookId = webhookId := Table.key_of_find? hfound
    simp only [Service.step, h]
    by_cases hw : webhookId = w
    · subst hw
      rw [hhook] at hfound
      cases hfound
      exact .inr ⟨rfl, Table.find?_put_self hkey hhook⟩
    · refine .inl ?_
      rw [Table.find?_put_of_ne (by rw [hkey]; exact hw)]
      exact hhook

/-- **One act.**  A subscription nobody deletes stays, and only a rotation changes it. -/
theorem hook_step (store : RunStore) (retention : Rat) (t : Instant) (hhook : s.hook? w = some hook)
    (hstays : act.deletes w = false) :
    (s.step store retention t act).hook? w = some hook ∨ ∃ now secret overlap, act.rotates w = some (now, overlap) ∧
      (s.step store retention t act).hook? w =
        some (hook.rotated secret (now + overlap)) := by
  have h := hooks store retention s t act
  generalize hafter : (s.step store retention t act).service.webhooks = after at h
  unfold hook? at hhook ⊢
  rw [hafter]
  cases h with
  | kept => exact .inl hhook
  | @created _ _ _ _ webhookId _ _ _ row key new =>
    refine .inl ?_
    rw [Table.find?_insert_of_ne, hhook]
    rintro rfl
    rw [key, new] at hhook
    cases hhook
  | @rotated now tenantId webhookId secret overlap =>
    rw [← hafter]
    rcases @hook_rotate s now w hook store tenantId webhookId secret overlap hhook with he | ⟨rfl, he⟩
    · exact .inl he
    · exact .inr ⟨now, secret, overlap, if_pos rfl, he⟩
  | @deleted _ _ webhookId =>
    have hne : w ≠ webhookId := fun he => by
      subst he
      simp [SendAct.deletes] at hstays
    exact .inl ((Table.find?_erase_of_ne _ hne).trans hhook)

/-- **A run.**  With one rotation at most, a secret that was the subscription's still signs until its overlap is over. -/
theorem secret_kept (store : RunStore) (retention : Rat) (hhook : s.hook? w = some hook) (l : List (Instant × SendAct))
    (hstays : ∀ x ∈ l, x.2.deletes w = false) (hone : (rotations w l).length ≤ 1) :
    ∃ hook', (Run.after (step store retention) s l).hook? w = some hook' ∧ StillSigns hook.secret hook' (rotations w l) := by
  induction l using List.reverseRecOn with
  | nil => exact ⟨hook, hhook, .current rfl⟩
  | append_singleton l x ih =>
    obtain ⟨t, act⟩ := x
    have hsplit : rotations w (l ++ [(t, act)]) = rotations w l ++ (act.rotates w).toList := by
      unfold rotations
      rw [List.filterMap_append]
      cases hasks : act.rotates w <;> simp [hasks]
    rw [hsplit, List.length_append] at hone
    obtain ⟨before, hbefore, hsigns⟩ := ih (fun x hx => hstays x (List.mem_append_left _ hx)) (by omega)
    rw [Run.after_concat, hsplit]
    generalize rotations w l = asked at hone hsigns
    have hact : act.deletes w = false := hstays (t, act) (List.mem_append_right _ List.mem_cons_self)
    rcases hook_step store retention t hbefore hact with he | ⟨now, secret, overlap, hasks, he⟩
    · refine ⟨before, he, ?_⟩
      cases hsigns with
      | current h => exact .current h
      | replaced h ends =>
        have hnone : act.rotates w = none := by
          cases hasks : act.rotates w with
          | none => rfl
          | some asks =>
            rw [hasks] at hone
            simp at hone
        rw [hnone]
        exact .replaced h ends
    · refine ⟨_, he, ?_⟩
      rw [hasks] at hone ⊢
      cases hsigns with
      | current h =>
        have hnil : asked = [] := List.length_eq_zero_iff.1 (by simpa using hone)
        rw [hnil]
        exact .replaced (congrArg some h) rfl
      | replaced h ends => simp at hone

end

/-- A subscription with the secret `"old"`. -/
def subscribedOld : Sending :=
  Run.after (step smallStore 3600) Sending.empty [(0, .route 0 (.create "t" "u" [.PAUSED] "service:app" "w" "old") rfl)]

/-- It is told of a pause, and its secret rotated for a day. -/
def rotatedWork : List (Instant × SendAct) :=
  (refusedWork.take 3).tail ++ [(3, .route 3 (.rotateSecret "t" "w" "new" 86400) rfl)]

end Sending

end AgentRuns
