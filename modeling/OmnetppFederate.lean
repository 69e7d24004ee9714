import OmnetppFederate.SchedulerModel
import OmnetppFederate.SchedulerStep
import OmnetppFederate.SchedulerGrant
import OmnetppFederate.SchedulerTime
import OmnetppFederate.SchedulerFailStop
import OmnetppFederate.SchedulerAck
import OmnetppFederate.GrantProtocol
import OmnetppFederate.SchedulerProtocol
import OmnetppFederate.SchedulerAdvance
import OmnetppFederate.SchedulerDelivery
import OmnetppFederate.LibSlotVector
import OmnetppFederate.ManagerModel
import OmnetppFederate.ManagerGates
import OmnetppFederate.ManagerAdds
import OmnetppFederate.SchedulerRejected
import OmnetppFederate.SchedulerShutdown
import OmnetppFederate.ChannelStream
import OmnetppFederate.ChannelRead
import OmnetppFederate.ChannelDecoded
import OmnetppFederate.ChannelSession
import OmnetppFederate.ChannelComplete
import OmnetppFederate.ChannelRetry
import OmnetppFederate.ProxyModel
import OmnetppFederate.ProxyRadios
import OmnetppFederate.ProxyConfiguration
import OmnetppFederate.ProxyChannels
import OmnetppFederate.ManagerNodes
import OmnetppFederate.SchedulerEvents
import OmnetppFederate.WorldModel
import OmnetppFederate.WorldStep
import OmnetppFederate.WorldNodes
import OmnetppFederate.WorldTrace
import OmnetppFederate.WorldReceptions
import OmnetppFederate.ChannelPrefix
import OmnetppFederate.SchedulerSend
import OmnetppFederate.ChannelWrite
import OmnetppFederate.ManagerSlots
import OmnetppFederate.LibRestamped
import OmnetppFederate.SchedulerPutBack
import OmnetppFederate.LibClock
import OmnetppFederate.LibPotential
import OmnetppFederate.SchedulerClock
import OmnetppFederate.LibFeed
import OmnetppFederate.WireClosed
import OmnetppFederate.WireMemory
import OmnetppFederate.SchedulerTracked
import OmnetppFederate.WorldForwards
import OmnetppFederate.WorldApps
import OmnetppFederate.WorldRadios
import OmnetppFederate.SchedulerDue
import OmnetppFederate.WorldDue
import OmnetppFederate.WorldOutcome
import OmnetppFederate.ManagerFeasible
import OmnetppFederate.WorldProgress
import OmnetppFederate.WorldRest
import OmnetppFederate.WorldReturn
