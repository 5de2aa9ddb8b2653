import WkcBrowser.Lib.Along
import WkcBrowser.Wtf.StringImpl
import WkcBrowser.Network.ResourceHandleManagerSSL

/-! The TLS options of a handle along the redirects of a job. A job starts on a new handle, and each
redirect is followed on the same one. -/

namespace WkcBrowser.Network

open Wtf Lib

/-- A URL that a job requests, and the tables of that time. -/
structure Hop where
  manager : ResourceHandleManagerSSL
  url : ServerURL

def Hop.IsHTTPS (hop : Hop) : Prop := equalIgnoringCase hop.url.protocol (text "https")

instance (hop : Hop) : Decidable hop.IsHTTPS := inferInstanceAs (Decidable (_ = true))

/-- What `initializeHandle` does for the first URL and `headerCallback` for that of a redirect. -/
def request (platform : Platform) (handle : TLSOptions) (hop : Hop) : TLSOptions :=
  if hop.IsHTTPS then hop.manager.initializeHandleSSL platform hop.url handle else handle

/-- The options that decide which servers are trusted. -/
structure SameTrust (a b : TLSOptions) : Prop where
  verifyPeer : a.verifyPeer = b.verifyPeer
  verifyHost : a.verifyHost = b.verifyHost
  caData : a.caData = b.caData
  caInfo : a.caInfo = b.caInfo

section
variable (platform : Platform)

/-- The handle is configured as a new one would be, if the URL is one of TLS. -/
def ConfiguredAfresh (handle : TLSOptions) (hop : Hop) : Prop :=
  hop.IsHTTPS → SameTrust (request platform handle hop) (request platform {} hop)

/-- The host has a certificate authority of its own. -/
def Hop.HasCA (hop : Hop) : Prop :=
  (hop.manager.allowsServerCA platform (SSLhostAndPort platform hop.url)).isSome

/-- The host is checked against the certificate file of the platform. -/
def Hop.UsesCertFile (hop : Hop) : Prop := ¬hop.HasCA platform ∧ hop.manager.certfIsRegist

/-- The later URL sets every option that the earlier one set. -/
def Covers (earlier later : Hop) : Prop :=
  earlier.IsHTTPS → later.IsHTTPS →
    (earlier.HasCA platform → later.HasCA platform) ∧
      (earlier.UsesCertFile platform → later.UsesCertFile platform)

variable {platform}

theorem hasCA_iff (hop : Hop) : hop.HasCA platform ↔
    hop.manager.allowsServerCA platform (SSLhostAndPort platform hop.url) ≠ none :=
  Option.isSome_iff_ne_none

/-- A handle is configured afresh exactly when the URL sets every option that was set before. -/
theorem configuredAfresh_iff (handle : TLSOptions) (hop : Hop) :
    ConfiguredAfresh platform handle hop ↔ (hop.IsHTTPS →
      (handle.caData ≠ none → hop.HasCA platform) ∧
        (handle.caInfo ≠ none → hop.UsesCertFile platform)) := by
  unfold ConfiguredAfresh
  apply forall_congr'
  intro secure
  simp only [request, if_pos secure, Hop.UsesCertFile, hasCA_iff, not_not]
  have verify := @ResourceHandleManagerSSL.initializeHandleSSL_verify platform hop.manager hop.url handle {}
  have caData := @ResourceHandleManagerSSL.initializeHandleSSL_caData platform hop.manager hop.url
  have caInfo := @ResourceHandleManagerSSL.initializeHandleSSL_caInfo platform hop.manager hop.url
  constructor
  · rintro ⟨-, -, sameData, sameInfo⟩
    rw [caData, caData] at sameData
    rw [caInfo, caInfo] at sameInfo
    constructor
    · intro was missing
      rw [missing] at sameData
      exact was sameData
    · intro was
      by_contra unset
      rw [if_neg unset, if_neg unset] at sameInfo
      exact was sameInfo
  · rintro ⟨coversData, coversInfo⟩
    refine ⟨verify.1, verify.2, ?_, ?_⟩
    · rw [caData, caData]
      cases own : hop.manager.allowsServerCA platform (SSLhostAndPort platform hop.url) with
      | some ca => rfl
      | none =>
        by_contra differs
        exact coversData differs own
    · rw [caInfo, caInfo]
      split
      · rfl
      next unset =>
        by_contra differs
        exact unset (coversInfo differs)

theorem request_caData_set (handle : TLSOptions) (hop : Hop) :
    (request platform handle hop).caData ≠ none ↔
      (hop.IsHTTPS ∧ hop.HasCA platform) ∨ handle.caData ≠ none := by
  unfold request
  split
  next secure =>
    rw [ResourceHandleManagerSSL.initializeHandleSSL_caData, hasCA_iff]
    simp only [ne_eq, Option.or_eq_none_iff, secure, true_and]
    tauto
  next plain => simp [plain]

theorem request_caInfo_set (handle : TLSOptions) (hop : Hop) :
    (request platform handle hop).caInfo ≠ none ↔
      (hop.IsHTTPS ∧ hop.UsesCertFile platform) ∨ handle.caInfo ≠ none := by
  unfold request
  split
  next secure =>
    rw [ResourceHandleManagerSSL.initializeHandleSSL_caInfo]
    simp only [Hop.UsesCertFile, hasCA_iff, not_not, secure, true_and]
    split
    next uses => simp [uses]
    next other => simp [other]
  next plain => simp [plain]

/-- The URL sets every option that is set on the handle. -/
def Hop.Resets (platform : Platform) (handle : TLSOptions) (hop : Hop) : Prop :=
  hop.IsHTTPS → (handle.caData ≠ none → hop.HasCA platform) ∧
    (handle.caInfo ≠ none → hop.UsesCertFile platform)

/-- What a URL sets adds to what the later ones have to set. -/
theorem resets_request (handle : TLSOptions) (earlier later : Hop) :
    later.Resets platform (request platform handle earlier) ↔
      later.Resets platform handle ∧ Covers platform earlier later := by
  unfold Hop.Resets Covers
  rw [request_caData_set, request_caInfo_set]
  tauto

/-- A chain that is followed on a handle. -/
theorem along_configuredAfresh (handle : TLSOptions) (hops : List Hop) :
    Along (request platform) (ConfiguredAfresh platform) handle hops ↔
      (∀ hop ∈ hops, hop.Resets platform handle) ∧ hops.Pairwise (Covers platform) := by
  induction hops generalizing handle with
  | nil => simp [Along]
  | cons hop hops ih =>
    have here : ConfiguredAfresh platform handle hop ↔ hop.Resets platform handle :=
      configuredAfresh_iff handle hop
    rw [Along, here, ih, List.forall_mem_cons, List.pairwise_cons]
    simp only [resets_request, forall_and]
    tauto

/-- Every TLS URL of a chain finds the handle configured as a new one would be exactly when each
sets every option that an earlier one set. -/
theorem redirects_configured_iff (platform : Platform) (hops : List Hop) :
    Along (request platform) (ConfiguredAfresh platform) {} hops ↔
      hops.Pairwise (Covers platform) := by
  rw [along_configuredAfresh]
  have new : ∀ hop ∈ hops, hop.Resets platform {} := by
    intro hop _ _
    exact ⟨fun set => absurd rfl set, fun set => absurd rfl set⟩
  exact and_iff_right new

end

/-- A host with an authority of its own redirects to a host without. -/
theorem not_redirects_configured_ownAuthority :
    ¬∀ (platform : Platform) (hops : List Hop),
      Along (request platform) (ConfiguredAfresh platform) {} hops := by
  intro all
  let manager : ResourceHandleManagerSSL := { allowServerCA := [(text "a:443", ascii "CA")] }
  have configured := all examplePlatform [⟨manager, text "https", text "a", none⟩,
    ⟨manager, text "https", text "b", none⟩]
  have kept := (configured.2.1 (by decide)).caData
  revert kept
  decide

end WkcBrowser.Network
