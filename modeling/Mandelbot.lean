import Mandelbot.Library.Loop
import Mandelbot.Library.Resources
import Mandelbot.Library.While
import Mandelbot.Library.KeyedStore
import Mandelbot.Library.RefCount
import Mandelbot.Library.Ledger
import Mandelbot.Library.Numeral
import Mandelbot.Library.Bech32
import Mandelbot.Library.Shell
import Mandelbot.Library.Varint
import Mandelbot.Library.Wire
import Mandelbot.Types.Codec
import Mandelbot.Types.Reading
import Mandelbot.Types.Skip
import Mandelbot.Types.Messages
import Mandelbot.Types.Marshal
import Mandelbot.Sdk.Basic
import Mandelbot.Sdk.Address
import Mandelbot.Sdk.Staking
import Mandelbot.Sdk.Distribution
import Mandelbot.Sdk.Periods
import Mandelbot.Sdk.Reference
import Mandelbot.Export.FeeDistribution
import Mandelbot.Export.Funds
import Mandelbot.Export.RewardPeriods
import Mandelbot.Export.Withdrawals
import Mandelbot.Export.AllowList
import Mandelbot.Export.StakingWalk
import Mandelbot.Export.Jailing
import Mandelbot.Export.ZeroHeight
import Mandelbot.Export.AppExport
import Mandelbot.Deploy.Scripts
import Mandelbot.Deploy.Mesh
import Mandelbot.Deploy.Genesis
import Mandelbot.Deploy.Assembly
import Mandelbot.Deploy.Deployment
import Mandelbot.Deploy.Apply
import Mandelbot.Deploy.Retry
import Mandelbot.Deploy.Lifecycle
import Mandelbot.Deploy.Runs
import Mandelbot.Deploy.Maintenance
import Mandelbot.Deploy.Settled
import Mandelbot.Library.Json
import Mandelbot.Library.JsonText
import Mandelbot.Library.Percent
import Mandelbot.Client.Rest
import Mandelbot.Client.Module
import Mandelbot.Client.Cache
import Mandelbot.Client.Subscriptions
import Mandelbot.Client.Listing
