import Axivc.Lib.Prog
import Axivc.Lib.Trace
import Axivc.Lib.Rely
import Axivc.Lib.Monitor
import Axivc.Lib.Cursor
import Axivc.Lib.LittleEndian
import Axivc.Slot
import Axivc.Ring
import Axivc.RingQueue
import Axivc.RingFifo
import Axivc.Frame
import Axivc.Codec
import Axivc.Sender
import Axivc.Receiver
import Axivc.Batching
import Axivc.Grammar
import Axivc.Consumer
import Axivc.Producer
import Axivc.SenderRuns
import Axivc.Session
import Axivc.Region
import Axivc.RegionInit
import Axivc.Endpoint
import Axivc.DeviceWrite
import Axivc.DeviceRead
import Axivc.DoubleFetch
import Axivc.EndpointRuns
import Axivc.SendRuns
import Axivc.RecvRuns
import Axivc.Demo
import Axivc.Lib.Ledger
import Axivc.Registry
import Axivc.RegistryInv
import Axivc.RegistrySteps
import Axivc.RegistryOpen
import Axivc.RegistryClose
import Axivc.RegistryCalls
import Axivc.RegistryRuns
import Axivc.RegistryPlaces
import Axivc.RegistryVerdicts
import Axivc.UioIrq
import Axivc.AppProto
import Axivc.TryRead
import Axivc.Ulib
import Axivc.UlibRuns
import Axivc.Lib.Turns
import Axivc.Wire
import Axivc.LinkSend
import Axivc.LinkRecv
import Axivc.Link
import Axivc.RegistryUnload
import Axivc.UioProbe
import Axivc.UlibIo
import Axivc.Pybind
import Axivc.Exchange
import Axivc.ExchangeRuns
import Axivc.Lib.Clients
import Axivc.RegistryTenure
import Axivc.RegistryIoctl
