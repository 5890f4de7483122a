/-!
# Scanning

A scanner is given by what it finds at the front of a text: nothing more, something to skip, a token,
or something that is none. `Scans` is the sequence of tokens that it cuts a text into.
-/

namespace TscServer.Lib

inductive Front (α τ : Type) where
  | done
  | skip (rest : List α)
  | token (t : τ) (rest : List α)
  | stuck

variable {α τ : Type} {front front' : List α → Front α τ} {s rest : List α} {t : τ} {ts us : List τ}

inductive Scans (front : List α → Front α τ) : List α → List τ → Prop
  | done {s : List α} : front s = .done → Scans front s []
  | skip {s rest : List α} {ts : List τ} : front s = .skip rest → Scans front rest ts → Scans front s ts
  | token {s rest : List α} {t : τ} {ts : List τ} : front s = .token t rest → Scans front rest ts →
      Scans front s (t :: ts)

theorem scans_done_iff (here : front s = .done) : Scans front s ts ↔ ts = [] := by
  constructor
  · intro scans
    cases scans with
    | done => rfl
    | skip other => cases here.symm.trans other
    | token other => cases here.symm.trans other
  · rintro rfl
    exact .done here

theorem scans_skip_iff (here : front s = .skip rest) : Scans front s ts ↔ Scans front rest ts := by
  constructor
  · intro scans
    cases scans with
    | done other => cases here.symm.trans other
    | skip same scans =>
        obtain rfl := Front.skip.inj (here.symm.trans same)
        exact scans
    | token other => cases here.symm.trans other
  · exact .skip here

theorem scans_token_iff (here : front s = .token t rest) :
    Scans front s ts ↔ ∃ us, ts = t :: us ∧ Scans front rest us := by
  constructor
  · intro scans
    cases scans with
    | done other => cases here.symm.trans other
    | skip other => cases here.symm.trans other
    | token same scans =>
        obtain ⟨rfl, rfl⟩ := Front.token.inj (here.symm.trans same)
        exact ⟨_, rfl, scans⟩
  · intro scans
    obtain ⟨us, rfl, scans⟩ := scans
    exact .token here scans

theorem scans_token_cons_iff (here : front s = .token t rest) :
    Scans front s (t :: ts) ↔ Scans front rest ts := by
  rw [scans_token_iff here]
  constructor
  · rintro ⟨us, same, scans⟩
    rwa [List.cons_inj_right t |>.mp same]
  · exact fun scans => ⟨ts, rfl, scans⟩

theorem not_scans_of_stuck (here : front s = .stuck) : ¬ Scans front s ts := by
  intro scans
  cases scans with
  | done other => cases here.symm.trans other
  | skip other => cases here.symm.trans other
  | token other => cases here.symm.trans other

theorem scans_unique (scans : Scans front s ts) (scans' : Scans front s us) : ts = us := by
  induction scans generalizing us with
  | done here => exact ((scans_done_iff here).mp scans').symm
  | skip here _ ih => exact ih ((scans_skip_iff here).mp scans')
  | token here _ ih =>
      obtain ⟨us', rfl, rest⟩ := (scans_token_iff here).mp scans'
      rw [ih rest]

end TscServer.Lib
