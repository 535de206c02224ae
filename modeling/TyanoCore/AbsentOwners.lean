import TyanoCore.HouseRent

/-!
# Owners who stay away

The character that a check loads from the database is thrown away after it, unless it has been sent a
warning.  So the rent of an owner who is not in the game is taken from nobody.
-/

namespace TyanoCore.HouseRent

variable {D H : Type*} {cfg : Config} {env : Surroundings D} {account : Account D}
variable {now bid time guid : ℕ} [DecidableEq H] {s t : State H D} {k : H}

/-- A character that is not in the game owns a house, and the bank has its rent; its depots may have
got letters. -/
structure Absent (s : State H D) (k : H) (guid : ℕ) (account : Account D) : Prop where
  owner : (s.houses k).owner = guid
  plain : (s.houses k).guild = false
  town : (s.houses k).town = true
  rent_le : (s.houses k).rent ≤ account.balance
  away : s.online guid = none
  stored : ∃ depot, s.stored guid = some { account with depot }

/-- The character does not log in and is not too old, and its house is neither given away nor
auctioned. -/
def Away (cfg : Config) (account : Account D) (k : H) (guid : ℕ) : Action H D → Prop
  | .payHouse _ time => cfg.houseCleanOld = 0 ∨ time < account.lastLogin + cfg.houseCleanOld
  | .auction j _ _ _ => j ≠ k
  | .setOwnerEx j _ _ => j ≠ k
  | .login other => other ≠ guid
  | _ => True

omit [DecidableEq H] in
theorem Absent.getPlayerByNameEx_eq (h : Absent s k guid account) :
    ∃ depot, s.getPlayerByNameEx guid = some ({ account with depot }, true) := by
  obtain ⟨depot, hstored⟩ := h.stored
  refine ⟨depot, ?_⟩
  rw [State.getPlayerByNameEx, h.away]
  dsimp only
  rw [hstored]
  rfl

omit [DecidableEq H] in
theorem Absent.ownerOf_eq (h : Absent s k guid account) (hname : env.hasName guid = true) :
    ownerOf env (s.houses k) = some guid := by
  rw [ownerOf, h.plain, if_neg Bool.false_ne_true, h.owner, Option.filter_some, if_pos hname]

omit [DecidableEq H] in
/-- The bank pays. -/
theorem Absent.not_due (h : Absent s k guid account) (hbank : cfg.bankSystem = true) (depot : D) :
    payRent cfg env now { account with depot } (s.houses k) 0 time ≠ .due := by
  intro hdue
  rcases (payRent_due hdue).2 with htown | htake
  · rw [h.town] at htown
    cases htown
  · have hle := Nat.le_trans (Nat.mod_le (s.houses k).rent (2 ^ 32)) h.rent_le
    rw [Nat.add_zero, take, if_pos ⟨hbank, hle⟩] at htake
    cases htake

theorem setOwnerEx_frame (env : Surroundings D) (s : State H D) (k : H) (guid now : ℕ) :
    (s.setOwnerEx env k guid now).online = s.online ∧
      (s.setOwnerEx env k guid now).stored = s.stored ∧
      ∀ j, j ≠ k → (s.setOwnerEx env k guid now).houses j = s.houses j := by
  rcases setOwnerEx_cases env s k guid now with heq | ⟨owner, lastWarning, heq | ⟨-, heq⟩⟩
  · rw [heq]
    exact ⟨rfl, rfl, fun _ _ => rfl⟩
  · rw [heq]
    exact ⟨rfl, rfl, fun j hj => Function.update_of_ne hj _ _⟩
  · rw [heq]
    exact ⟨rfl, rfl, fun j hj => Function.update_of_ne hj _ _⟩

omit [DecidableEq H] in
/-- A state in which the house is as it was but for its payments, and the character is as it was. -/
theorem Absent.of_frame (h : Absent s k guid account)
    (hhouse : ∃ paidUntil, t.houses k = { s.houses k with paidUntil })
    (honline : t.online guid = s.online guid) (hstored : t.stored guid = s.stored guid) :
    Absent t k guid account := by
  obtain ⟨paidUntil, hhouse⟩ := hhouse
  constructor
  · rw [hhouse]
    exact h.owner
  · rw [hhouse]
    exact h.plain
  · rw [hhouse]
    exact h.town
  · rw [hhouse]
    exact h.rent_le
  · exact honline.trans h.away
  · rw [hstored]
    exact h.stored

theorem Absent.setOwnerEx (h : Absent s k guid account) {j : H} (hj : j ≠ k) (other now : ℕ) :
    Absent (s.setOwnerEx env j other now) k guid account := by
  obtain ⟨honline, hstored, hhouses⟩ := setOwnerEx_frame env s j other now
  exact h.of_frame ⟨_, hhouses k hj.symm⟩ (congrFun honline guid) (congrFun hstored guid)

omit [DecidableEq H] in
/-- Who is in the game is somebody else. -/
theorem Absent.ne (h : Absent s k guid account) {other : ℕ} {player : Account D}
    (hplayer : s.getPlayerByNameEx other = some (player, false)) : guid ≠ other := by
  rintro rfl
  obtain ⟨depot, hvirtual⟩ := h.getPlayerByNameEx_eq
  rw [hvirtual] at hplayer
  cases hplayer

theorem Absent.pay (h : Absent s k guid account) {j : H} {other : ℕ} {isVirtual : Bool}
    {player player' : Account D} (hplayer : s.getPlayerByNameEx other = some (player, isVirtual))
    (paidUntil : ℕ) (paid : H → List ℕ) :
    Absent { (s.setOnline other player' isVirtual).setHouse j { s.houses j with paidUntil } with
      paid } k guid account := by
  have honline : (s.setOnline other player' isVirtual).online guid = s.online guid := by
    cases isVirtual with
    | true => rfl
    | false => exact Function.update_of_ne (h.ne hplayer) _ _
  have hrest : (s.setOnline other player' isVirtual).stored = s.stored ∧
      (s.setOnline other player' isVirtual).houses = s.houses := by
    cases isVirtual <;> exact ⟨rfl, rfl⟩
  obtain ⟨hstored, hhouses⟩ := hrest
  refine h.of_frame ?_ honline (congrFun hstored guid)
  dsimp only [State.setHouse]
  rw [hhouses]
  by_cases hj : k = j
  · rw [hj, Function.update_self]
    exact ⟨_, rfl⟩
  · rw [Function.update_of_ne hj]
    exact ⟨_, rfl⟩

/-- Another house's rent is due; the owner may be the same and get a letter. -/
theorem Absent.warnOwner (h : Absent s k guid account) {j : H} (hj : j ≠ k) {other : ℕ}
    {isVirtual : Bool} {player : Account D}
    (hplayer : s.getPlayerByNameEx other = some (player, isVirtual)) :
    Absent (s.warnOwner cfg env j other player isVirtual time) k guid account := by
  unfold State.warnOwner
  dsimp only
  split
  · exact h
  split
  · generalize warning cfg (s.houses j) (s.houses j).rentWarnings = text
    have hhouses := (sendWarning_frame env s other player isVirtual text).1
    have hhouse : ((s.sendWarning env other player isVirtual text).setHouse j
        { s.houses j with
          rentWarnings := (s.houses j).rentWarnings + 1, lastWarning := time }).houses k =
          s.houses k := by
      dsimp only [State.setHouse]
      rw [Function.update_of_ne hj.symm, hhouses]
    have hsent : Absent (s.sendWarning env other player isVirtual text) k guid account := by
      unfold State.sendWarning
      split
      · exact h
      next depot _ =>
      cases isVirtual with
      | true =>
        by_cases hsame : guid = other
        · subst hsame
          obtain ⟨own, hown⟩ := h.getPlayerByNameEx_eq
          rw [hown] at hplayer
          cases hplayer
          exact ⟨h.owner, h.plain, h.town, h.rent_le, h.away, depot, Function.update_self _ _ _⟩
        · exact h.of_frame ⟨_, rfl⟩ rfl (Function.update_of_ne hsame _ _)
      | false => exact h.of_frame ⟨_, rfl⟩ (Function.update_of_ne (h.ne hplayer) _ _) rfl
    exact hsent.of_frame ⟨_, hhouse.trans (congrFun hhouses k).symm⟩ rfl rfl
  · exact h.of_frame ⟨_, (setOwnerEx_frame env s j 0 time).2.2 k hj.symm⟩
      (congrFun (setOwnerEx_frame env s j 0 time).1 guid)
      (congrFun (setOwnerEx_frame env s j 0 time).2.1 guid)

omit [DecidableEq H] in
/-- Nobody takes the owner for too old or for nobody. -/
theorem Absent.not_cleaned (h : Absent s k guid account) (hname : env.hasName guid = true)
    (hclean : cfg.houseCleanOld = 0 ∨ time < account.lastLogin + cfg.houseCleanOld) :
    ¬ (ownerOf env (s.houses k) = none ∨ ∃ other player, ownerOf env (s.houses k) = some other ∧
      s.getPlayerByNameEx other = some (player, true) ∧ cfg.houseCleanOld ≠ 0 ∧
        time ≥ player.lastLogin + cfg.houseCleanOld) := by
  obtain ⟨depot, hown⟩ := h.getPlayerByNameEx_eq
  rw [h.ownerOf_eq hname]
  rintro (hnone | ⟨other, player, hother, hplayer, hold, hage⟩)
  · cases hnone
  · cases hother
    rw [hown] at hplayer
    cases hplayer
    rcases hclean with hzero | hyoung
    · exact absurd hzero hold
    · exact absurd hage (Nat.not_le_of_lt hyoung)

/-- No check takes the house away, and what the database has of its owner stays as it is. -/
theorem Absent.payHouse (h : Absent s k guid account) (hbank : cfg.bankSystem = true)
    (hname : env.hasName guid = true) {j : H} (hbid : j = k → bid = 0)
    (hclean : j = k → cfg.houseCleanOld = 0 ∨ time < account.lastLogin + cfg.houseCleanOld) :
    Absent (s.payHouse cfg env j time bid) k guid account := by
  obtain ⟨depot, hown⟩ := h.getPlayerByNameEx_eq
  have howner := h.ownerOf_eq hname
  have hchecked := checked_payHouse cfg env s j time bid
  generalize s.payHouse cfg env j time bid = t at hchecked ⊢
  cases hchecked with
  | idle => exact h
  | cleaned hgone =>
    by_cases hj : j = k
    · subst hj
      exact absurd hgone (h.not_cleaned hname (hclean rfl))
    · exact h.setOwnerEx hj 0 time
  | due hother hplayer hdue =>
    by_cases hj : j = k
    · subst hj
      rw [howner] at hother
      cases hother
      rw [hown] at hplayer
      cases hplayer
      rw [hbid rfl] at hdue
      exact absurd hdue (h.not_due hbank depot)
    · exact h.warnOwner hj hplayer
  | paid hother hplayer hpaid =>
    obtain ⟨-, -, -, -, rfl⟩ := payRent_paid hpaid
    exact h.pay hplayer _ _

theorem Absent.step (h : Absent s k guid account) (hbank : cfg.bankSystem = true)
    (hname : env.hasName guid = true) {a : Action H D} (ha : Away cfg account k guid a) :
    Absent (s.step cfg env a) k guid account := by
  cases a with
  | payHouse j time => exact h.payHouse hbank hname (fun _ => rfl) fun _ => ha
  | auction j other time bid =>
    have hgiven : Absent (s.setHouse j { s.houses j with owner := other }) k guid account :=
      h.of_frame ⟨_, Function.update_of_ne (Ne.symm ha) _ _⟩ rfl rfl
    exact hgiven.payHouse hbank hname (fun hj => absurd hj ha) fun hj => absurd hj ha
  | setOwnerEx j other now => exact h.setOwnerEx ha other now
  | preRent j other now =>
    dsimp only [State.step]
    unfold State.preRent
    split
    · exact h
    next player hplayer =>
    have hnamed : s.getPlayerByNameEx other = some (player, false) := by
      rw [State.getPlayerByNameEx, hplayer]
    split
    next player' house hpaid =>
      obtain ⟨-, -, -, -, rfl⟩ := payRent_paid hpaid
      exact h.pay hnamed _ _
    · exact h
  | login other => exact h.of_frame ⟨_, rfl⟩ (Function.update_of_ne (Ne.symm ha) _ _) rfl
  | play other player =>
    refine h.of_frame ⟨_, rfl⟩ ?_ rfl
    by_cases hsame : guid = other
    · subst hsame
      dsimp only [State.step]
      rw [Function.update_self, h.away]
      rfl
    · exact Function.update_of_ne hsame _ _
  | save other =>
    refine h.of_frame ⟨_, rfl⟩ rfl ?_
    by_cases hsame : guid = other
    · subst hsame
      dsimp only [State.step]
      rw [Function.update_self, h.away]
      rfl
    · exact Function.update_of_ne hsame _ _
  | logout other =>
    refine h.of_frame ⟨_, rfl⟩ ?_ ?_
    · by_cases hsame : guid = other
      · subst hsame
        dsimp only [State.step]
        rw [Function.update_self, h.away]
      · exact Function.update_of_ne hsame _ _
    · by_cases hsame : guid = other
      · subst hsame
        dsimp only [State.step]
        rw [Function.update_self, h.away]
        rfl
      · exact Function.update_of_ne hsame _ _

theorem Absent.run (h : Absent s k guid account) (hbank : cfg.bankSystem = true)
    (hname : env.hasName guid = true) {as : List (Action H D)}
    (has : ∀ a ∈ as, Away cfg account k guid a) :
    Absent (as.foldl (State.step cfg env) s) k guid account := by
  induction as generalizing s with
  | nil => exact h
  | cons a as ih =>
    exact ih (h.step hbank hname (has a List.mem_cons_self)) fun b hb =>
      has b (List.mem_cons_of_mem a hb)

/-- After a check the rent is paid. -/
theorem Absent.paid (h : Absent s k guid account) (hbank : cfg.bankSystem = true)
    (hname : env.hasName guid = true) (hperiod : cfg.rentPeriod ≠ .RENTPERIOD_NEVER)
    (hguid : guid ≠ 0) (hrent : (s.houses k).rent ≠ 0) (hrule : account.ignoreHouseRent = false)
    (htime : InTime time)
    (hclean : cfg.houseCleanOld = 0 ∨ time < account.lastLogin + cfg.houseCleanOld) :
    time < ((s.payHouse cfg env k time 0).houses k).paidUntil := by
  obtain ⟨depot, hown⟩ := h.getPlayerByNameEx_eq
  have howner := h.ownerOf_eq hname
  have hchecked := checked_payHouse cfg env s k time 0
  generalize s.payHouse cfg env k time 0 = t at hchecked ⊢
  cases hchecked with
  | idle hidle =>
    rcases hidle with hnobody | htown | ⟨other, hother, hplayer⟩ | hnever | huntil | hzero |
      ⟨other, player, isVirtual, hother, hplayer, hignore⟩
    · exact absurd (h.owner.symm.trans hnobody) hguid
    · rw [h.town] at htown
      cases htown
    · rw [howner] at hother
      cases hother
      rw [hown] at hplayer
      cases hplayer
    · exact absurd hnever hperiod
    · exact huntil
    · exact absurd hzero hrent
    · rw [howner] at hother
      cases hother
      rw [hown] at hplayer
      cases hplayer
      rw [hrule] at hignore
      cases hignore
  | cleaned hgone => exact absurd hgone (h.not_cleaned hname hclean)
  | due hother hplayer hdue =>
    rw [howner] at hother
    cases hother
    rw [hown] at hplayer
    cases hplayer
    exact absurd hdue (h.not_due hbank depot)
  | paid hother hplayer hpaid =>
    obtain ⟨-, -, -, -, rfl⟩ := payRent_paid hpaid
    dsimp only [State.setHouse]
    rw [Function.update_self, ite_self]
    have hpos := RentPeriod_t.seconds_pos hperiod
    have hle := cfg.rentPeriod.seconds_le
    unfold InTime at htime
    dsimp only
    rw [Nat.mod_eq_of_lt (by omega)]
    omega

/-- Whatever happens while the owner of a house stays away, the house stays his, its rent is paid at
every check, and the bank of the database has as much as before. -/
theorem absent_lives_free (h : Absent s k guid account) (hbank : cfg.bankSystem = true)
    (hname : env.hasName guid = true) (hperiod : cfg.rentPeriod ≠ .RENTPERIOD_NEVER)
    (hguid : guid ≠ 0) (hrule : account.ignoreHouseRent = false) {as : List (Action H D)}
    (has : ∀ a ∈ as, Away cfg account k guid a) :
    let t := as.foldl (State.step cfg env) s
    (t.houses k).owner = guid ∧ (t.stored guid).map Account.balance = some account.balance ∧
      ∀ time, InTime time → Away cfg account k guid (.payHouse k time : Action H D) →
        (t.houses k).rent ≠ 0 → time < ((t.payHouse cfg env k time 0).houses k).paidUntil := by
  intro t
  have ht : Absent t k guid account := h.run hbank hname has
  obtain ⟨depot, hstored⟩ := ht.stored
  refine ⟨ht.owner, ?_, fun time htime hclean hrent => ?_⟩
  · rw [hstored]
    rfl
  · exact ht.paid hbank hname hperiod hguid hrent hrule htime hclean

/-- Three days for which the bank has not enough. -/
theorem absent_lives_free_mill :
    let t := [.payHouse () 90000, .payHouse () 180000, .payHouse () 270000].foldl
      (State.step daily letters) (mill 250)
    t.paid () = [270000, 180000, 90000] ∧ (t.houses ()).owner = 5 ∧
      (t.stored 5).map Account.balance = some 250 := by
  have habsent : Absent (mill 250) () 5 ⟨250, [], 0, false⟩ :=
    ⟨rfl, rfl, rfl, by decide, rfl, [], rfl⟩
  have haway : ∀ a ∈ ([.payHouse () 90000, .payHouse () 180000, .payHouse () 270000] :
      List (Action Unit (List String))), Away daily ⟨250, [], 0, false⟩ () 5 a := by
    intro a ha
    rcases List.mem_cons.mp ha with rfl | ha
    · exact .inl rfl
    rcases List.mem_cons.mp ha with rfl | ha
    · exact .inl rfl
    cases List.mem_singleton.mp ha
    exact .inl rfl
  obtain ⟨howner, hstored, -⟩ :=
    absent_lives_free habsent (show daily.bankSystem = true from rfl)
      (show letters.hasName 5 = true from rfl) (by decide) (by decide) rfl haway
  exact ⟨rfl, howner, hstored⟩

end TyanoCore.HouseRent
