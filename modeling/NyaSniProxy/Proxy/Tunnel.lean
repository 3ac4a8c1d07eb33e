import NyaSniProxy.Proxy.Socks5

/-!
# Opening a tunnel

What a CONNECT exchange writes and consumes, for every reply of the proxy. The request is written as
a whole before the reply is read. The reply ends at its first empty line, and what was read beyond
it is handed to the tunnel.
-/

namespace NyaSniProxy

open Text Interaction Wire

section Rules

variable {faulty : Prop} {I : Option Call → Wire → Prop} {w : Wire}

/-- The reply is read up to a chunk that holds its first empty line. -/
theorem wp_readConnectResponse {Q : Except Error (Bytes × Bytes) → Wire → Prop}
    (hI : ∀ c bytes w', Consumes .upstream bytes w w' → I c w')
    (hok : ∀ bytes stop w', Consumes .upstream bytes w w' → headerEnd bytes = some stop →
      Q (.ok (bytes.take stop, bytes.drop (stop + 4))) w')
    (herr : ∀ e bytes w', Consumes .upstream bytes w w' → Q (.error e) w') :
    wp (Answer faulty) I readConnectResponse Q w := by
  refine wp_readUntil (by decide) hI (fun bytes w' verdict hc hcheck => ?_) herr
  rw [List.nil_append, Option.map_eq_some_iff] at hcheck
  obtain ⟨parts, hsplit, rfl⟩ := hcheck
  obtain ⟨stop, hstop, rfl⟩ := Option.map_eq_some_iff.mp hsplit
  exact hok bytes stop w' hc hstop

/-- The request is written as a whole before the first read. -/
theorem wp_httpConnect {proxy : ProxyConfig} {target : Target}
    {Q : Except Error Bytes → Wire → Prop}
    (hI : ∀ c received handed w', Exchanged received handed w w' →
      handed <+: proxy.connectRequest target →
      (∀ cap, c = some (.read .upstream cap) → handed = proxy.connectRequest target) → I c w')
    (hok : ∀ received stop w', Exchanged received (proxy.connectRequest target) w w' →
      headerEnd received = some stop → Q (.ok (received.drop (stop + 4))) w')
    (herr : ∀ e received handed w', Exchanged received handed w w' →
      handed <+: proxy.connectRequest target → Q (.error e) w') :
    wp (Answer faulty) I (proxy.httpConnect target) Q w := by
  have hwrite (part : Bytes) : Exchanged [] part w (w.write .upstream part) :=
    (Exchanged.refl w).write
  have hwhole := hwrite (proxy.connectRequest target)
  have hwriting : wp (Answer faulty)
      (fun _ w' => ∃ part, part <+: proxy.connectRequest target ∧ w' = w.write .upstream part)
      (Io.writeAll .upstream (proxy.connectRequest target))
      (fun r w' => ∃ part, part <+: proxy.connectRequest target ∧ w' = w.write .upstream part ∧
        (r.isOk = true → part = proxy.connectRequest target)) w :=
    wp_writeAll (fun _ part hp => ⟨part, hp, rfl⟩) ⟨_, List.prefix_refl _, rfl, fun _ => rfl⟩
      fun _ f part hp => ⟨part, hp, rfl, fun hok => Bool.noConfusion hok⟩
  have honly : (Io.writeAll .upstream (proxy.connectRequest target)).Only
      fun i => ∃ part, i = .write .upstream part :=
    Io.only_writeAll fun part => ⟨part, rfl⟩
  refine wp.bind ((hwriting.of_only honly ?_).mono ?_)
  · rintro c w' ⟨part, hp, rfl⟩ hcall
    refine hI c [] part _ (hwrite part) hp fun cap hread => ?_
    obtain ⟨_, hpart⟩ := hcall _ hread
    cases hpart
  rintro (e | u) w' ⟨part, hp, rfl, hdone⟩
  · exact herr e [] part _ (hwrite part) hp
  · obtain rfl := hdone rfl
    refine wp.bind (wp_readConnectResponse
      (fun c bytes w' hc => hI c _ _ w' (hwhole.read hc) (List.prefix_refl _) fun _ _ => rfl)
      (fun bytes stop w' hc hstop => ?_)
      fun e bytes w' hc => herr e _ _ w' (hwhole.read hc) (List.prefix_refl _))
    have hx := hwhole.read hc
    have hnow := hI none _ _ w' hx (List.prefix_refl _) nofun
    refine wp.bind (wp_ofExcept hnow ?_)
    cases checkStatus (bytes.take stop) with
    | ok u => exact ⟨hnow, hok bytes stop w' hx hstop⟩
    | error e => exact herr e _ _ w' hx (List.prefix_refl _)

end Rules

end NyaSniProxy
