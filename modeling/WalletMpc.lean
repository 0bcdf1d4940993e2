import WalletMpc.Fallible
import WalletMpc.Systems
import WalletMpc.Feeds
import WalletMpc.Decimals
import WalletMpc.Room
import WalletMpc.Resumption
import WalletMpc.Subscribers
import WalletMpc.Locks
import WalletMpc.Wakeup
import WalletMpc.Arenas
import WalletMpc.Handlers
import WalletMpc.UniqueIdx
import WalletMpc.Proto
import WalletMpc.Gateway
import WalletMpc.JoinRoom
import WalletMpc.Delivery
import WalletMpc.Network
import WalletMpc.Routing
import WalletMpc.Isolation
import WalletMpc.BigEndian
import WalletMpc.Ecdsa
import WalletMpc.KeyRecovery
import WalletMpc.Signing
import WalletMpc.RecoveryIds
import WalletMpc.PublicKeys
import WalletMpc.EthSignature
import WalletMpc.Dealer
import WalletMpc.Quorum
import WalletMpc.Atomicity
import WalletMpc.LastWrites
import WalletMpc.ShareFiles
import WalletMpc.Plaintext
import WalletMpc.Signer
import WalletMpc.ServerSlot
import WalletMpc.Threshold
import WalletMpc.TxIds
import WalletMpc.Genuineness
import WalletMpc.Lifecycle
import WalletMpc.Clients
import WalletMpc.ClientConfig
import WalletMpc.ConfigFidelity
import WalletMpc.ShareRuns
import WalletMpc.Loaders
import WalletMpc.Appending
import WalletMpc.Checked
import WalletMpc.Progressions
import WalletMpc.SafePrimes
import WalletMpc.SafePrimeSearch
import WalletMpc.CrtPowers
import WalletMpc.NthResidues
import WalletMpc.BigIntegers
import WalletMpc.CrtExp
import WalletMpc.PaillierKeys
import WalletMpc.Paillier
import WalletMpc.Homomorphism
import WalletMpc.PaillierPrimes
import WalletMpc.Hexadecimals
import WalletMpc.Arguments
import WalletMpc.Wallet
import WalletMpc.Turns
import WalletMpc.GatewayOrder
import WalletMpc.SerialProxy
import WalletMpc.SseProcess
import WalletMpc.GatewayShutdown
import WalletMpc.Progress
import WalletMpc.SharedSigner
import WalletMpc.Readers
import WalletMpc.SocketAddrs
import WalletMpc.Standalone
import WalletMpc.SignerOrder
import WalletMpc.Deployment
import WalletMpc.RoomProgress
